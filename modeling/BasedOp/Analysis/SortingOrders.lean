import BasedOp.Analysis.PoolContents
import Mathlib.Data.List.Perm.Subperm

/-!
# The orders of a frag that is being sorted

A round of sorting asks the last orders for their next transactions (`sendNext_spec`) and
takes the results in one after the other (`handleSim_spec`). Both look at the orders from
the end, and everything a result does is done to the last order of its sender: the
transaction is put there (`Puts`), or what the order has simulated is popped (`Pops`). So
what was not asked stays untouched in front, and as long as the senders that are waited for
and the sender of the best result so far are covered by the orders that were asked
(`Covers`), no result finds its sender missing.
-/

set_option autoImplicit false

namespace BasedOp.Analysis.SortingOrders

open Model Model.Gateway PoolContents

variable {α : Type} {order : SimulatedTxList} {tx : SimulatedTx}
  {front orders orders' : List SimulatedTxList} {sender : Address} {baseFee gasRemaining : UInt64}
  {data : SortingData} {result : Except SimulationError SimulatedTx} {waiting : List Address}
  {best best' : Option SimulatedTx}

/-! ## The last place -/

/-- The last element with a property. -/
theorem exists_last {p : α → Prop} {xs : List α} (h : ∃ x ∈ xs, p x) :
    ∃ front x back, xs = front ++ x :: back ∧ p x ∧ ∀ y ∈ back, ¬ p y := by
  induction xs with
  | nil =>
    obtain ⟨x, hx, -⟩ := h
    cases hx
  | cons y ys ih =>
    by_cases hlater : ∃ x ∈ ys, p x
    · obtain ⟨front, x, back, rfl, hx, hback⟩ := ih hlater
      exact ⟨y :: front, x, back, rfl, hx, hback⟩
    · obtain ⟨x, hx, hpx⟩ := h
      obtain rfl | hx := List.mem_cons.mp hx
      · exact ⟨[], x, ys, rfl, hpx, fun z hz hpz => hlater ⟨z, hz, hpz⟩⟩
      · exact absurd ⟨x, hx, hpx⟩ hlater

/-- The index of the last element with a property. -/
theorem lastIdx?_append {p : α → Bool} (front : List α) {x : α} {back : List α} (hx : p x = true)
    (hback : ∀ y ∈ back, p y = false) :
    lastIdx? p (front ++ x :: back) = some front.length := by
  have hnone : back.reverse.findIdx? p = none := by
    rw [List.findIdx?_eq_none_iff]
    intro y hy
    exact hback y (List.mem_reverse.mp hy)
  have hfind : (front ++ x :: back).reverse.findIdx? p = some back.length := by
    rw [List.reverse_append, List.reverse_cons, List.append_assoc, List.findIdx?_append, hnone,
      List.singleton_append, List.findIdx?_cons, hx]
    simp
  unfold lastIdx?
  rw [hfind, Option.map_some, List.length_append, List.length_cons]
  congr 1
  omega

/-- Changing the element between two parts. -/
theorem modify_append (front : List α) (x : α) (back : List α) (f : α → α) :
    (front ++ x :: back).modify front.length f = front ++ f x :: back := by
  induction front with
  | nil => rfl
  | cons y front ih =>
    rw [List.cons_append, List.length_cons, List.modify_succ_cons, ih]
    rfl

/-- Reading the element between two parts. -/
theorem getElem?_append_cons (front : List α) (x : α) (back : List α) :
    (front ++ x :: back)[front.length]? = some x := by
  rw [List.getElem?_append_right (Nat.le_refl _), Nat.sub_self]
  rfl

/-- Setting the element between two parts. -/
theorem set_append_cons (front : List α) (x : α) (back : List α) (y : α) :
    (front ++ x :: back).set front.length y = front ++ y :: back := by
  rw [List.set_append_right _ _ (Nat.le_refl _), Nat.sub_self]
  rfl

/-! ## One order -/

/-- Popping keeps the sender. -/
theorem sender_pop (order : SimulatedTxList) (baseFee : UInt64) :
    (order.pop baseFee).2.sender = order.sender := by
  unfold SimulatedTxList.pop
  split
  · rfl
  · split <;> rfl

/-- Asking keeps the sender. -/
theorem sender_nextToSim (order : SimulatedTxList) : order.nextToSim.2.sender = order.sender := by
  unfold SimulatedTxList.nextToSim
  split <;> rfl

/-- An order holds transactions of its own sender. -/
def Own (order : SimulatedTxList) : Prop := OfOrder (fun t => t.sender = order.sender) order

def Owns (orders : List SimulatedTxList) : Prop := ∀ order ∈ orders, Own order

/-- Popping keeps an order its own. -/
theorem own_pop (h : Own order) (baseFee : UInt64) : Own (order.pop baseFee).2 := by
  unfold Own
  rw [sender_pop]
  exact ofOrder_pop h baseFee

/-- An order of one transaction. -/
theorem own_fromTx (tx : Transaction) : Own { current := none, pending := .fromTx tx } :=
  ⟨fun _ h => (nomatch h), ofList_fromTx rfl⟩

/-- Putting back keeps an order its own. -/
theorem own_put (h : Own order) (hsender : order.sender = tx.sender) : Own (order.put tx) :=
  ofOrder_put h hsender.symm

/-- Two lists of orders. -/
theorem owns_append (hfront : Owns front) (horders : Owns orders) : Owns (front ++ orders) := by
  intro order horder
  obtain horder | horder := List.mem_append.mp horder
  · exact hfront order horder
  · exact horders order horder

/-- Between two rounds nothing is under way. -/
structure Settled (data : SortingData) : Prop where
  inFlightSims : data.inFlightSims = 0
  nextToBeApplied : data.nextToBeApplied = none
  owns : Owns data.tofSnapshot

/-! ## The last order of a sender -/

/-- The orders after a transaction was put into one of its sender.
SRCLINE: sorting/mod.rs:57-72 -/
inductive Puts (tx : SimulatedTx) : List SimulatedTxList → List SimulatedTxList → Prop
  | intro {front back : List SimulatedTxList} {order : SimulatedTxList}
      (hsender : order.sender = tx.sender) :
      Puts tx (front ++ order :: back) (front ++ order.put tx :: back)

/-- The orders after one of a sender was popped, which removes it if nothing else is left to apply.
SRCLINE: sorting/mod.rs:37-55 -/
inductive Pops (sender : Address) (baseFee : UInt64) :
    List SimulatedTxList → List SimulatedTxList → Prop
  | kept {front back : List SimulatedTxList} {order : SimulatedTxList}
      (hsender : order.sender = sender) (hpop : (order.pop baseFee).1 = false) :
      Pops sender baseFee (front ++ order :: back) (front ++ (order.pop baseFee).2 :: back)
  | removed {front back back' : List SimulatedTxList} {order : SimulatedTxList}
      (hsender : order.sender = sender) (hperm : back'.Perm back) :
      Pops sender baseFee (front ++ order :: back) (front ++ back')

/-- The senders of orders. -/
def senders (orders : List SimulatedTxList) : List Address := orders.map SimulatedTxList.sender

/-- Who has an order. -/
theorem mem_senders_iff :
    sender ∈ senders orders ↔ ∃ order ∈ orders, order.sender = sender := List.mem_map

/-- The last order of a sender is found behind what is in front. -/
theorem exists_lastIdx? (front : List SimulatedTxList) (h : sender ∈ senders orders) :
    ∃ before order after, orders = before ++ order :: after ∧ order.sender = sender ∧
      lastIdx? (fun order => order.sender == sender) ((front ++ before) ++ order :: after) =
        some (front ++ before).length := by
  obtain ⟨before, order, after, rfl, hsender, hafter⟩ := exists_last (mem_senders_iff.mp h)
  refine ⟨before, order, after, rfl, hsender, ?_⟩
  apply lastIdx?_append
  · rw [hsender, beq_self_eq_true]
  · intro other hother
    exact beq_eq_false_iff_ne.mpr (hafter other hother)

/-- A transaction is put into the last order of its sender, so nothing changes in
front of some orders that have one. -/
theorem put_spec (front : List SimulatedTxList) (h : tx.sender ∈ senders orders) :
    ∃ orders', ActiveOrders.put (front ++ orders) tx = front ++ orders' ∧
      Puts tx orders orders' := by
  obtain ⟨before, order, after, rfl, hsender, hlast⟩ := exists_lastIdx? front h
  refine ⟨_, ?_, .intro hsender⟩
  unfold ActiveOrders.put
  rw [← List.append_assoc, hlast]
  dsimp only
  rw [modify_append, List.append_assoc]

/-- The last order of a sender is popped; its place is taken by the last order of
all if it is removed. -/
theorem removeFromSender_spec (front : List SimulatedTxList) (baseFee : UInt64)
    (h : sender ∈ senders orders) :
    ∃ orders', ActiveOrders.removeFromSender (front ++ orders) sender baseFee =
      some (front ++ orders') ∧ Pops sender baseFee orders orders' := by
  obtain ⟨before, order, after, rfl, hsender, hlast⟩ := exists_lastIdx? front h
  have hne : ((front ++ before) ++ order :: after).isEmpty = false := by simp
  unfold ActiveOrders.removeFromSender
  rw [← List.append_assoc, hne, hlast]
  dsimp only
  rw [getElem?_append_cons]
  dsimp only
  rw [if_neg Bool.false_ne_true]
  rcases hpop : order.pop baseFee with ⟨_ | _, order'⟩
  · refine ⟨before ++ order' :: after, ?_, ?_⟩
    · dsimp only
      rw [set_append_cons, List.append_assoc]
    · have hkept : Pops sender baseFee (before ++ order :: after)
          (before ++ (order.pop baseFee).2 :: after) := .kept hsender (congrArg Prod.fst hpop)
      rw [hpop] at hkept
      exact hkept
  · have hswap := swapRemove_append (front ++ before) (List.cons_ne_nil order' after) 0
    rw [Nat.add_zero] at hswap
    refine ⟨before ++ swapRemove (order' :: after) 0, ?_, .removed hsender ?_⟩
    · dsimp only
      rw [set_append_cons, hswap, List.append_assoc]
    · have hperm : (order' :: swapRemove (order' :: after) 0).Perm (order' :: after) :=
        perm_swapRemove rfl
      exact hperm.cons_inv

/-- Putting back keeps the senders. -/
theorem Puts.senders_eq (h : Puts tx orders orders') : senders orders' = senders orders := by
  cases h with
  | intro =>
    unfold senders
    rw [List.map_append, List.map_append, List.map_cons, List.map_cons]
    rfl

/-- Popping loses one at most. -/
theorem Pops.senders_subperm (h : Pops sender baseFee orders orders') :
    (senders orders).Subperm (sender :: senders orders') := by
  cases h with
  | kept =>
    unfold senders
    rw [List.map_append, List.map_append, List.map_cons, List.map_cons, sender_pop]
    exact (List.sublist_cons_self _ _).subperm
  | @removed front back back' order hsender hperm =>
    unfold senders
    rw [List.map_append, List.map_append, List.map_cons, hsender]
    exact (List.perm_middle.trans (((hperm.map _).symm.append_left _).cons sender)).subperm

/-- It adds none. -/
theorem Pops.subperm_senders (h : Pops sender baseFee orders orders') :
    (senders orders').Subperm (senders orders) := by
  cases h with
  | kept =>
    unfold senders
    rw [List.map_append, List.map_append, List.map_cons, List.map_cons, sender_pop]
  | @removed front back back' order hsender hperm =>
    unfold senders
    rw [List.map_append, List.map_append, List.map_cons]
    refine (((hperm.map _).append_left _).subperm).trans ?_
    exact ((List.sublist_cons_self _ _).append_left _).subperm

/-- Orders of others stay. -/
theorem Puts.mem_iff (h : Puts tx orders orders') (hne : order.sender ≠ tx.sender) :
    order ∈ orders' ↔ order ∈ orders := by
  cases h with
  | @intro front back old hsender =>
    have hold : order ≠ old := fun heq => hne (heq ▸ hsender)
    have hnew : order ≠ old.put tx := fun heq => hne (heq ▸ hsender)
    simp only [List.mem_append, List.mem_cons, hold, hnew, false_or]

/-- What is put back is there. -/
theorem Puts.exists_current (h : Puts tx orders orders') :
    ∃ order ∈ orders', order.sender = tx.sender ∧ order.current = some tx := by
  cases h with
  | @intro front back old hsender =>
    exact ⟨old.put tx, List.mem_append_right _ List.mem_cons_self, hsender, rfl⟩

/-- Orders of others stay. -/
theorem Pops.mem_iff (h : Pops sender baseFee orders orders') (hne : order.sender ≠ sender) :
    order ∈ orders' ↔ order ∈ orders := by
  cases h with
  | @kept front back old hsender hpop =>
    have hold : order ≠ old := fun heq => hne (heq ▸ hsender)
    have hnew : order ≠ (old.pop baseFee).2 := fun heq =>
      hne (heq ▸ (sender_pop old baseFee).trans hsender)
    simp only [List.mem_append, List.mem_cons, hold, hnew, false_or]
  | @removed front back back' old hsender hperm =>
    have hold : order ≠ old := fun heq => hne (heq ▸ hsender)
    simp only [List.mem_append, List.mem_cons, hold, false_or, hperm.mem_iff]

/-- Orders stay their senders'. -/
theorem Puts.owns (h : Puts tx orders orders') (howns : Owns orders) : Owns orders' := by
  cases h with
  | @intro front back old hsender =>
    intro order horder
    obtain hfront | horder := List.mem_append.mp horder
    · exact howns order (List.mem_append_left _ hfront)
    · obtain rfl | hback := List.mem_cons.mp horder
      · exact own_put (howns old (List.mem_append_right _ List.mem_cons_self)) hsender
      · exact howns order (List.mem_append_right _ (List.mem_cons_of_mem _ hback))

/-- Orders stay their senders' when one is popped. -/
theorem Pops.owns (h : Pops sender baseFee orders orders') (howns : Owns orders) :
    Owns orders' := by
  cases h with
  | @kept front back old hsender hpop =>
    intro order horder
    obtain hfront | horder := List.mem_append.mp horder
    · exact howns order (List.mem_append_left _ hfront)
    · obtain rfl | hback := List.mem_cons.mp horder
      · exact own_pop (howns old (List.mem_append_right _ List.mem_cons_self)) baseFee
      · exact howns order (List.mem_append_right _ (List.mem_cons_of_mem _ hback))
  | @removed front back back' old hsender hperm =>
    intro order horder
    obtain hfront | hback := List.mem_append.mp horder
    · exact howns order (List.mem_append_left _ hfront)
    · exact howns order
        (List.mem_append_right _ (List.mem_cons_of_mem _ (hperm.mem_iff.mp hback)))

/-! ## Asking the orders -/

/-- An order that is asked for its next transaction. -/
structure Turn where
  before : SimulatedTxList
  tx : Transaction
  after : SimulatedTxList
  asks : before.nextToSim = (some tx, after)

/-- A turn keeps the sender. -/
theorem Turn.sender_after (turn : Turn) : turn.after.sender = turn.before.sender := by
  have hsender := sender_nextToSim turn.before
  rw [turn.asks] at hsender
  exact hsender

/-- It takes a transaction of the sender. -/
theorem Turn.own_after {turn : Turn} (h : Own turn.before) :
    turn.tx.sender = turn.before.sender ∧ Own turn.after := by
  obtain ⟨htx, hafter⟩ := ofOrder_nextToSim h
  rw [turn.asks] at htx hafter
  refine ⟨htx turn.tx rfl, ?_⟩
  unfold Own
  rw [turn.sender_after]
  exact hafter

/-- An order for which there is enough gas has a transaction. -/
theorem exists_turn {gas : UInt64} (h : ActiveOrders.notEnoughGas order gas = false) :
    ∃ tx after, order.nextToSim = (some tx, after) := by
  unfold SimulatedTxList.nextToSim
  cases hcurrent : order.current with
  | some t => exact ⟨t.tx, order, rfl⟩
  | none =>
    unfold ActiveOrders.notEnoughGas SimulatedTxList.gasLimit at h
    rw [hcurrent] at h
    dsimp only at h
    cases hpeek : order.pending.peek with
    | none =>
      rw [hpeek] at h
      cases h
    | some tx => exact ⟨tx, _, congrArg (·, _) hpeek⟩

/-- What asking the orders does, when some at the end had their turns already: of those before
them some are dropped, some have their turns, and those in front are left as they are. All
are dropped if none has a turn although there is room for one. -/
structure Asking (data : SortingData) (limit : UInt64) (done : List SimulatedTxList)
    (data' : SortingData) (requests : List SequencerToSimulator) where
  front : List SimulatedTxList
  rest : List SimulatedTxList
  dropped : List SimulatedTxList
  turns : List Turn
  asked : List SimulatedTxList
  before : data.tofSnapshot = front ++ rest ++ done
  rest_perm : rest.Perm (dropped ++ turns.map Turn.before)
  asked_perm : asked.Perm (turns.map Turn.after ++ done)
  after : data' = { data with
    tofSnapshot := front ++ asked
    inFlightSims := data.inFlightSims + UInt64.ofNat turns.length }
  requests_eq : requests = turns.map fun turn => data.request turn.tx
  finished : turns = [] → data.inFlightSims < limit → front = []

namespace Asking

variable {data data' : SortingData} {limit : UInt64} {done : List SimulatedTxList}
  {requests : List SequencerToSimulator}

/-- Nothing more is asked. -/
def stop {front : List SimulatedTxList} (h : data.tofSnapshot = front ++ done)
    (hfull : data.inFlightSims < limit → front = []) : Asking data limit done data [] where
  front := front
  rest := []
  dropped := []
  turns := []
  asked := done
  before := by rw [h, List.append_nil]
  rest_perm := .nil
  asked_perm := .refl _
  after := by
    rw [← h]
    obtain ⟨_, _, _, _, _, inFlightSims, _, _⟩ := data
    simp
  requests_eq := rfl
  finished := fun _ => hfull

/-- An order is dropped, and the last of those that had their turns takes its place. -/
def drop {front : List SimulatedTxList} {order : SimulatedTxList}
    (h : data.tofSnapshot = front ++ order :: done) {done' : List SimulatedTxList}
    (hperm : done'.Perm done)
    (asking : Asking { data with tofSnapshot := front ++ done' } limit done' data' requests) :
    Asking data limit done data' requests where
  front := asking.front
  rest := asking.rest ++ [order]
  dropped := order :: asking.dropped
  turns := asking.turns
  asked := asking.asked
  before := by
    have hfront : front = asking.front ++ asking.rest := List.append_cancel_right asking.before
    calc data.tofSnapshot = front ++ order :: done := h
      _ = (asking.front ++ asking.rest) ++ order :: done := congrArg (· ++ order :: done) hfront
      _ = asking.front ++ (asking.rest ++ [order]) ++ done := by simp
  rest_perm := (List.perm_append_singleton _ _).trans (asking.rest_perm.cons order)
  asked_perm := asking.asked_perm.trans (hperm.append_left _)
  after := asking.after
  requests_eq := asking.requests_eq
  finished := asking.finished

/-- An order has its turn. -/
def ask {front : List SimulatedTxList} (turn : Turn)
    (h : data.tofSnapshot = front ++ turn.before :: done)
    (asking : Asking { data with
      tofSnapshot := front ++ turn.after :: done
      inFlightSims := data.inFlightSims + 1 } limit (turn.after :: done) data' requests) :
    Asking data limit done data' (data.request turn.tx :: requests) where
  front := asking.front
  rest := asking.rest ++ [turn.before]
  dropped := asking.dropped
  turns := turn :: asking.turns
  asked := asking.asked
  before := by
    have hfront : front = asking.front ++ asking.rest := List.append_cancel_right asking.before
    calc data.tofSnapshot = front ++ turn.before :: done := h
      _ = (asking.front ++ asking.rest) ++ turn.before :: done :=
        congrArg (· ++ turn.before :: done) hfront
      _ = asking.front ++ (asking.rest ++ [turn.before]) ++ done := by simp
  rest_perm := by
    refine (List.perm_append_singleton _ _).trans ((asking.rest_perm.cons turn.before).trans ?_)
    rw [List.map_cons]
    exact List.perm_middle.symm
  asked_perm := by
    rw [List.map_cons, List.cons_append]
    exact asking.asked_perm.trans List.perm_middle
  after := by
    have hcount : data.inFlightSims + 1 + UInt64.ofNat asking.turns.length =
        data.inFlightSims + UInt64.ofNat (asking.turns.length + 1) := by
      rw [UInt64.ofNat_add, UInt64.add_assoc, UInt64.add_comm 1]
      rfl
    exact asking.after.trans (congrArg (fun count => { data with
      tofSnapshot := asking.front ++ asking.asked
      inFlightSims := count }) hcount)
  requests_eq := congrArg (data.request turn.tx :: ·) asking.requests_eq
  finished := fun hnil => nomatch hnil

end Asking

/-- The loop that asks the orders goes on with those in front, if there are any. -/
def sendFront (limit : UInt64) :
    ℕ → SortingData → Option (SortingData × List SequencerToSimulator)
  | 0, data => some (data, [])
  | i + 1, data => data.sendNextFrom limit i

variable {done : List SimulatedTxList}

/-- One turn of the loop that asks the orders. -/
theorem sendNextFrom_step (limit : UInt64) (h : data.tofSnapshot = front ++ order :: done)
    (hfront : ∀ (data : SortingData) done, data.tofSnapshot = front ++ done →
      ∃ data' requests, sendFront limit front.length data = some (data', requests) ∧
        Nonempty (Asking data limit done data' requests)) :
    ∃ data' requests, data.sendNextFrom limit front.length = some (data', requests) ∧
      Nonempty (Asking data limit done data' requests) := by
  have hplace : data.tofSnapshot[front.length]? = some order := by
    rw [h]
    exact getElem?_append_cons front order done
  rw [SortingData.sendNextFrom]
  by_cases hroom : data.inFlightSims < limit
  · rw [if_pos hroom, hplace]
    dsimp only
    cases hgas : ActiveOrders.notEnoughGas order data.gasRemaining with
    | true =>
      have hswap : swapRemove data.tofSnapshot front.length =
          front ++ swapRemove (order :: done) 0 := by
        rw [h]
        exact swapRemove_append front (List.cons_ne_nil order done) 0
      have hperm : (order :: swapRemove (order :: done) 0).Perm (order :: done) :=
        perm_swapRemove rfl
      rw [if_pos rfl, hswap]
      obtain ⟨data', requests, hsend, ⟨asking⟩⟩ :=
        hfront { data with tofSnapshot := front ++ swapRemove (order :: done) 0 } _ rfl
      refine ⟨data', requests, ?_, ⟨asking.drop h hperm.cons_inv⟩⟩
      rw [← hsend]
      cases front.length <;> rfl
    | false =>
      obtain ⟨tx, after, hasks⟩ := exists_turn hgas
      have hset : data.tofSnapshot.set front.length after = front ++ after :: done := by
        rw [h]
        exact set_append_cons front order done after
      rw [if_neg Bool.false_ne_true, hasks]
      dsimp only
      rw [hset]
      obtain ⟨data', requests, hsend, ⟨asking⟩⟩ :=
        hfront { data with
          tofSnapshot := front ++ after :: done
          inFlightSims := data.inFlightSims + 1 } (after :: done) rfl
      refine ⟨data', data.request tx :: requests, ?_, ⟨asking.ask ⟨order, tx, after, hasks⟩ h⟩⟩
      have hcons := congrArg (Option.map fun asked => (asked.1, data.request tx :: asked.2)) hsend
      rw [Option.map_some] at hcons
      rw [← hcons]
      cases front.length <;> rfl
  · rw [if_neg hroom]
    have hwhole : data.tofSnapshot = (front ++ [order]) ++ done := by
      rw [h, List.append_assoc, List.singleton_append]
    exact ⟨data, [], rfl, ⟨.stop hwhole fun hlt => absurd hlt hroom⟩⟩

/-- The loop that asks the orders, from the last one that had no turn to the first. -/
theorem sendFront_spec (limit : UInt64) (h : data.tofSnapshot = front ++ done) :
    ∃ data' requests, sendFront limit front.length data = some (data', requests) ∧
      Nonempty (Asking data limit done data' requests) := by
  induction front using List.reverseRecOn generalizing data done with
  | nil => exact ⟨data, [], rfl, ⟨.stop h fun _ => rfl⟩⟩
  | append_singleton front order ih =>
    rw [List.append_assoc, List.singleton_append] at h
    rw [List.length_append, List.length_singleton]
    exact sendNextFrom_step limit h fun data done => ih

/-- Asking the orders never panics: an order that has no transaction is dropped for want of gas. -/
theorem sendNext_spec (data : SortingData) (limit : UInt64) :
    ∃ data' requests, data.sendNext limit = some (data', requests) ∧
      Nonempty (Asking data limit [] data' requests) := by
  have h : data.tofSnapshot = data.tofSnapshot ++ [] := (List.append_nil _).symm
  unfold SortingData.sendNext
  by_cases hlength : data.tofSnapshot.length = 0
  · rw [if_pos hlength]
    exact ⟨data, [], rfl, ⟨.stop h fun _ => List.eq_nil_of_length_eq_zero hlength⟩⟩
  · rw [if_neg hlength]
    obtain ⟨data', requests, hsend, hasking⟩ := sendFront_spec limit h
    refine ⟨data', requests, ?_, hasking⟩
    obtain ⟨i, hi⟩ := Nat.exists_eq_succ_of_ne_zero hlength
    rw [hi] at hsend ⊢
    exact hsend

section

variable {data data' : SortingData} {limit : UInt64} {requests : List SequencerToSimulator}

/-- Asking uses no gas. -/
theorem Asking.gasRemaining_eq (asking : Asking data limit [] data' requests) :
    data'.gasRemaining = data.gasRemaining := by
  rw [asking.after]

/-- It applies nothing. -/
theorem Asking.nextToBeApplied_eq (asking : Asking data limit [] data' requests) :
    data'.nextToBeApplied = data.nextToBeApplied := by
  rw [asking.after]

/-- It counts its requests. -/
theorem Asking.inFlightSims_eq (asking : Asking data limit [] data' requests) :
    data'.inFlightSims = data.inFlightSims + UInt64.ofNat requests.length := by
  have hlength : requests.length = asking.turns.length :=
    (congrArg List.length asking.requests_eq).trans (List.length_map _)
  rw [hlength]
  exact congrArg SortingData.inFlightSims asking.after

/-- Who was asked comes last. -/
theorem Asking.tofSnapshot_eq (asking : Asking data limit [] data' requests) :
    data'.tofSnapshot = asking.front ++ asking.asked :=
  congrArg SortingData.tofSnapshot asking.after

/-- They had orders. -/
theorem Asking.mem_before (asking : Asking data limit [] data' requests) {turn : Turn}
    (h : turn ∈ asking.turns) : turn.before ∈ data.tofSnapshot := by
  rw [asking.before, List.append_nil]
  refine List.mem_append_right _ (asking.rest_perm.mem_iff.mpr ?_)
  exact List.mem_append_right _ (List.mem_map_of_mem h)

/-- Orders stay their senders'. -/
theorem Asking.owns (asking : Asking data limit [] data' requests) (h : Owns data.tofSnapshot) :
    Owns asking.front ∧ Owns asking.asked := by
  constructor
  · intro order horder
    refine h order ?_
    rw [asking.before, List.append_nil]
    exact List.mem_append_left _ horder
  · intro order horder
    rw [asking.asked_perm.mem_iff, List.append_nil] at horder
    obtain ⟨turn, hturn, rfl⟩ := List.mem_map.mp horder
    exact (Turn.own_after (h turn.before (asking.mem_before hturn))).2

/-- The senders of the transactions that were asked for are those of the orders that were asked. -/
theorem Asking.senders_perm (asking : Asking data limit [] data' requests)
    (h : Owns data.tofSnapshot) :
    (requests.map fun request => request.tx.sender).Perm (senders asking.asked) := by
  have hrequests : requests.map (fun request => request.tx.sender) =
      (asking.turns.map Turn.after).map SimulatedTxList.sender := by
    refine (congrArg (List.map fun request => request.tx.sender) asking.requests_eq).trans ?_
    rw [List.map_map, List.map_map]
    refine List.map_congr_left fun turn hturn => ?_
    exact (Turn.own_after (h turn.before (asking.mem_before hturn))).1.trans
      turn.sender_after.symm
  rw [hrequests]
  have hperm := asking.asked_perm.symm.map SimulatedTxList.sender
  rw [List.append_nil] at hperm
  exact hperm

/-- No sender is added. -/
theorem Asking.senders_subperm (asking : Asking data limit [] data' requests) :
    (senders (asking.front ++ asking.asked)).Subperm (senders data.tofSnapshot) := by
  have hsenders : (asking.turns.map Turn.after).map SimulatedTxList.sender =
      (asking.turns.map Turn.before).map SimulatedTxList.sender := by
    rw [List.map_map, List.map_map]
    exact List.map_congr_left fun turn _ => turn.sender_after
  have hasked := asking.asked_perm.map SimulatedTxList.sender
  have hrest := asking.rest_perm.map SimulatedTxList.sender
  rw [List.append_nil, hsenders] at hasked
  rw [List.map_append] at hrest
  unfold senders
  rw [asking.before, List.append_nil, List.map_append, List.map_append, List.subperm_append_left]
  refine hasked.subperm.trans (List.Subperm.trans ?_ hrest.symm.subperm)
  exact (List.sublist_append_right _ _).subperm

end

/-! ## Taking in a result -/

/-- The senders that are waited for, and that of the best result so far, have orders, each
as many as it occurs. -/
def Covers (orders : List SimulatedTxList) (best : Option SimulatedTx) (waiting : List Address) :
    Prop :=
  (best.toList.map SimulatedTx.sender ++ waiting).Subperm (senders orders)

/-- What a result does to the orders and to the best result so far: it is dropped for an error
or for want of gas, becomes the best one, or is put back; the best one before is put back
when a better one replaces it.
SRCLINE: sorting_data.rs:147-183 -/
inductive ResultStep (gasRemaining baseFee : UInt64) (sender : Address)
    (orders : List SimulatedTxList) (best : Option SimulatedTx) :
    Except SimulationError SimulatedTx → List SimulatedTxList → Option SimulatedTx → Prop
  | dropped {result : Except SimulationError SimulatedTx} {orders' : List SimulatedTxList}
      (hgas : ∀ tx, result = .ok tx → gasRemaining < tx.gasUsed)
      (hpops : Pops sender baseFee orders orders') :
      ResultStep gasRemaining baseFee sender orders best result orders' best
  | first {tx : SimulatedTx} (hbest : best = none) (hgas : tx.gasUsed < gasRemaining) :
      ResultStep gasRemaining baseFee sender orders best (.ok tx) orders (some tx)
  | better {tx old : SimulatedTx} {orders' : List SimulatedTxList} (hbest : best = some old)
      (hgas : tx.gasUsed < gasRemaining) (hpays : old.payment < tx.payment)
      (hputs : Puts old orders orders') :
      ResultStep gasRemaining baseFee sender orders best (.ok tx) orders' (some tx)
  | putBack {tx : SimulatedTx} {orders' : List SimulatedTxList} (hgas : tx.gasUsed ≤ gasRemaining)
      (hpays : tx.gasUsed < gasRemaining → ∃ old, best = some old ∧ tx.payment ≤ old.payment)
      (hputs : Puts tx orders orders') :
      ResultStep gasRemaining baseFee sender orders best (.ok tx) orders' best

/-- A result whose sender has an order does not panic, and leaves alone what is in
front of the orders that were asked. -/
theorem handleSim_spec (baseFee : UInt64) (horders : data.tofSnapshot = front ++ orders)
    (hcovers : Covers orders data.nextToBeApplied (sender :: waiting))
    (hresult : ∀ tx, result = .ok tx → tx.sender = sender) :
    ∃ orders' best, data.handleSim result sender baseFee = some { data with
        inFlightSims := data.inFlightSims - 1
        tofSnapshot := front ++ orders'
        nextToBeApplied := best } ∧
      ResultStep data.gasRemaining baseFee sender orders data.nextToBeApplied result orders'
        best := by
  have hsender : sender ∈ senders orders :=
    hcovers.subset (List.mem_append_right _ List.mem_cons_self)
  have hbest : ∀ old, data.nextToBeApplied = some old → old.sender ∈ senders orders := by
    intro old hold
    refine hcovers.subset (List.mem_append_left _ ?_)
    rw [hold]
    exact List.mem_cons_self
  obtain ⟨popped, hremove, hpops⟩ := removeFromSender_spec front baseFee hsender
  rw [← horders] at hremove
  unfold SortingData.handleSim
  dsimp only
  rw [hremove]
  cases result with
  | error => exact ⟨popped, data.nextToBeApplied, rfl, .dropped (fun _ h => nomatch h) hpops⟩
  | ok tx =>
    dsimp only
    by_cases hgas : data.gasRemaining < tx.gasUsed
    · rw [if_pos hgas]
      refine ⟨popped, data.nextToBeApplied, rfl, .dropped ?_ hpops⟩
      rintro _ ⟨⟩
      exact hgas
    · rw [if_neg hgas]
      have hle := UInt64.not_lt.mp hgas
      have htx : tx.sender ∈ senders orders := hresult tx rfl ▸ hsender
      obtain ⟨put, hput, hputs⟩ := put_spec front htx
      rw [← horders] at hput
      by_cases hbelow : tx.gasUsed < data.gasRemaining
      · cases hold : data.nextToBeApplied with
        | none =>
          rw [if_pos (by simp [hbelow]), horders]
          exact ⟨orders, some tx, rfl, .first rfl hbelow⟩
        | some old =>
          by_cases hpays : old.payment < tx.payment
          · obtain ⟨back, hback, hputsOld⟩ := put_spec front (hbest old hold)
            rw [← horders] at hback
            rw [if_pos (by simp [hbelow, hpays])]
            dsimp only
            rw [hback]
            exact ⟨back, some tx, rfl, .better rfl hbelow hpays hputsOld⟩
          · rw [if_neg (by simp [hpays]), hput]
            exact ⟨put, some old, rfl, .putBack hle
              (fun _ => ⟨old, rfl, BitVec.not_lt.mp hpays⟩) hputs⟩
      · rw [if_neg (by simp [hbelow]), hput]
        exact ⟨put, data.nextToBeApplied, rfl, .putBack hle (fun h => absurd h hbelow) hputs⟩

/-- After a result the senders are covered that are waited for still. -/
theorem ResultStep.covers
    (h : ResultStep gasRemaining baseFee sender orders best result orders' best')
    (hresult : ∀ tx, result = .ok tx → tx.sender = sender)
    (hcovers : Covers orders best (sender :: waiting)) : Covers orders' best' waiting := by
  unfold Covers at hcovers ⊢
  cases h with
  | dropped hgas hpops =>
    have hmoved := List.perm_middle.symm.subperm.trans (hcovers.trans hpops.senders_subperm)
    exact (List.subperm_cons sender).mp hmoved
  | first hbest =>
    rw [hbest] at hcovers
    rw [Option.toList_some, List.map_singleton, hresult _ rfl]
    exact hcovers
  | better hbest hgas hpays hputs =>
    rw [hbest] at hcovers
    rw [hputs.senders_eq, Option.toList_some, List.map_singleton, hresult _ rfl]
    exact (List.sublist_cons_self _ _).subperm.trans hcovers
  | putBack hgas hpays hputs =>
    rw [hputs.senders_eq]
    exact ((List.sublist_cons_self _ _).append_left _).subperm.trans hcovers

/-- Orders stay their senders' at a result. -/
theorem ResultStep.owns
    (h : ResultStep gasRemaining baseFee sender orders best result orders' best')
    (howns : Owns orders) : Owns orders' := by
  cases h with
  | dropped hgas hpops => exact hpops.owns howns
  | first => exact howns
  | better hbest hgas hpays hputs => exact hputs.owns howns
  | putBack hgas hpays hputs => exact hputs.owns howns

/-- It adds no sender. -/
theorem ResultStep.subperm_senders
    (h : ResultStep gasRemaining baseFee sender orders best result orders' best') :
    (senders orders').Subperm (senders orders) := by
  cases h with
  | dropped hgas hpops => exact hpops.subperm_senders
  | first => exact List.Subperm.refl _
  | better hbest hgas hpays hputs => rw [hputs.senders_eq]
  | putBack hgas hpays hputs => rw [hputs.senders_eq]

/-- Nothing to apply. -/
theorem maybeApply_of_none {S : Type} (crates : Crates S) (baseFee : UInt64)
    (ctx : SequencerContext S) (hbest : data.nextToBeApplied = none) :
    data.maybeApply crates baseFee ctx = some (data, ctx) := by
  unfold SortingData.maybeApply
  rw [hbest]

/-- Applying the best result pops the last order of its sender. -/
theorem maybeApply_spec {S : Type} (crates : Crates S) (baseFee : UInt64)
    (ctx : SequencerContext S) (horders : data.tofSnapshot = front ++ orders)
    (hcovers : Covers orders data.nextToBeApplied waiting)
    (hbest : data.nextToBeApplied = some tx) :
    ∃ orders', data.maybeApply crates baseFee ctx = some (SortingData.applyTx crates
        { data with nextToBeApplied := none, tofSnapshot := front ++ orders' } tx ctx) ∧
      Pops tx.sender baseFee orders orders' ∧ Covers orders' none waiting := by
  unfold Covers at hcovers
  rw [hbest] at hcovers
  have hsender : tx.sender ∈ senders orders := hcovers.subset List.mem_cons_self
  obtain ⟨orders', hremove, hpops⟩ := removeFromSender_spec front baseFee hsender
  refine ⟨orders', ?_, hpops, ?_⟩
  · unfold SortingData.maybeApply
    rw [hbest]
    dsimp only
    rw [horders, hremove]
  · exact (List.subperm_cons tx.sender).mp (hcovers.trans hpops.senders_subperm)

end BasedOp.Analysis.SortingOrders
