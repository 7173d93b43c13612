import BasedOp.Model.Sorting
import Mathlib.Data.List.InsertIdx

/-!
# What the pools and the orders hold

Whatever holds of every transaction that is given to the pool holds of every transaction
in it, of the orders that are taken from it, and of the simulations that are asked for.
The functions of the pool move transactions around but make none.
-/

set_option autoImplicit false

namespace BasedOp.Analysis.PoolContents

open Model Model.Gateway

variable {p : Transaction → Prop} {α : Type} {xs : List α} {i : ℕ} {tx t : Transaction} {l : TxList}
  {nonce baseFee : UInt64} {txs : List Transaction} {pool pool' : TxPool} {sender : Address}
  {a a' : Active} {getNonce : Address → UInt64} {simSender : Bool} {data data' : SortingData}

/-! ## Vectors -/

/-- What is left was there. -/
theorem mem_of_mem_swapRemove {x : α} (h : x ∈ swapRemove xs i) : x ∈ xs := by
  unfold swapRemove at h
  split at h
  · cases h
  · rename_i last hlast
    obtain hold | rfl := List.mem_or_eq_of_mem_set ((List.dropLast_sublist _).subset h)
    · exact hold
    · exact List.mem_of_getLast? hlast

/-- The element that is removed is overwritten by the last one. -/
theorem swapRemove_concat (front : List α) (last : α) (i : ℕ) :
    swapRemove (front ++ [last]) i = front.set i last := by
  unfold swapRemove
  rw [List.getLast?_concat]
  dsimp only
  by_cases hi : i < front.length
  · rw [List.set_append_left _ _ hi, List.dropLast_concat]
  · rw [List.set_append_right _ _ (Nat.not_lt.mp hi), List.set_eq_of_length_le (Nat.not_lt.mp hi)]
    cases i - front.length with
    | zero => rw [List.set_cons_zero, List.dropLast_concat]
    | succ => rw [List.set_cons_succ, List.set_nil, List.dropLast_concat]

/-- A removal leaves one element less. -/
theorem length_swapRemove (xs : List α) (i : ℕ) : (swapRemove xs i).length = xs.length - 1 := by
  induction xs using List.reverseRecOn with
  | nil => rfl
  | append_singleton =>
    rw [swapRemove_concat, List.length_set, List.length_append, List.length_singleton]
    omega

/-- A removal takes just the element at the index. -/
theorem perm_swapRemove {x : α} (h : xs[i]? = some x) : (x :: swapRemove xs i).Perm xs := by
  induction xs using List.reverseRecOn with
  | nil => cases h
  | append_singleton front last =>
    rw [swapRemove_concat]
    by_cases hi : i < front.length
    · rw [List.getElem?_append_left hi] at h
      obtain ⟨_, rfl⟩ := List.getElem?_eq_some_iff.mp h
      calc List.Perm (front[i] :: front.set i last) (front[i] :: last :: front.eraseIdx i) :=
            (List.set_perm_cons_eraseIdx hi last).cons _
        List.Perm _ (last :: front[i] :: front.eraseIdx i) := .swap _ _ _
        List.Perm _ (last :: front) := (List.getElem_cons_eraseIdx_perm hi).cons _
        List.Perm _ (front ++ [last]) := (List.perm_append_singleton _ _).symm
    · rw [List.set_eq_of_length_le (Nat.not_lt.mp hi)]
      rw [List.getElem?_append_right (Nat.not_lt.mp hi)] at h
      obtain rfl : last = x := by
        cases hj : i - front.length with
        | zero => simpa [hj] using h
        | succ => simp [hj] at h
      exact (List.perm_append_singleton _ _).symm

/-- A removal leaves what is in front. -/
theorem swapRemove_append (front : List α) (hxs : xs ≠ []) (i : ℕ) :
    swapRemove (front ++ xs) (front.length + i) = front ++ swapRemove xs i := by
  induction xs using List.reverseRecOn with
  | nil => exact absurd rfl hxs
  | append_singleton =>
    rw [← List.append_assoc, swapRemove_concat, swapRemove_concat,
      List.set_append_right _ _ (Nat.le_add_right _ _), Nat.add_sub_cancel_left]

/-- Setting a good element keeps the others. -/
theorem forall_set {q : α → Prop} {x : α} (hxs : ∀ y ∈ xs, q y) (hx : q x) :
    ∀ y ∈ xs.set i x, q y := by
  intro y hy
  obtain hold | rfl := List.mem_or_eq_of_mem_set hy
  · exact hxs y hold
  · exact hx

/-! ## The transactions of one sender -/

def OfList (p : Transaction → Prop) (l : TxList) : Prop := ∀ t ∈ l.txs, p t

/-- `fromTx` makes a list of what it is given. -/
theorem ofList_fromTx (htx : p tx) : OfList p (.fromTx tx) := by
  intro t ht
  rw [List.mem_singleton.mp ht]
  exact htx

/-- `put` adds only what it is given. -/
theorem ofList_put (hl : OfList p l) (htx : p tx) : OfList p (l.put tx) := by
  unfold TxList.put
  split
  · intro t ht
    obtain hold | hnew := List.mem_append.mp ht
    · exact hl t hold
    · rw [List.mem_singleton.mp hnew]
      exact htx
  · split
    · exact forall_set hl htx
    · intro t ht
      obtain rfl | hold := List.eq_or_mem_of_mem_insertIdx ht
      · exact htx
      · exact hl t hold

/-- What is not dropped was there. -/
theorem mem_of_mem_dropThrough (h : t ∈ TxList.dropThrough nonce txs) : t ∈ txs := by
  induction txs with
  | nil => cases h
  | cons first rest ih =>
    rw [TxList.dropThrough] at h
    split at h
    · exact List.mem_cons_of_mem _ h
    · exact List.mem_cons_of_mem _ (ih h)

/-- `forward` adds nothing to a list. -/
theorem ofList_forward (hl : OfList p l) (nonce : UInt64) : OfList p (l.forward nonce).2 := by
  unfold TxList.forward
  split
  · exact hl
  · exact fun t ht => hl t (mem_of_mem_dropThrough ht)

/-- `popFront` adds nothing to a list. -/
theorem ofList_popFront (hl : OfList p l) : OfList p l.popFront.2 :=
  fun t ht => hl t (List.mem_of_mem_tail ht)

/-- The first transaction is one of the list. -/
theorem of_head (hl : OfList p l) (h : l.txs.head? = some t) : p t :=
  hl t (List.mem_of_head? h)

/-- What is ready was there. -/
theorem mem_of_mem_readyTxs (h : t ∈ TxList.readyTxs baseFee nonce txs) : t ∈ txs := by
  induction txs generalizing nonce with
  | nil => cases h
  | cons first rest ih =>
    rw [TxList.readyTxs] at h
    split at h
    · cases h
    · obtain rfl | hrest := List.mem_cons.mp h
      · exact List.mem_cons_self
      · exact List.mem_cons_of_mem _ (ih hrest)

/-- The ready transactions are of the list. -/
theorem ofList_ready {ready : TxList} (hl : OfList p l) (h : l.ready nonce baseFee = some ready) :
    OfList p ready := by
  unfold TxList.ready at h
  split at h
  · cases h
  · split at h
    · cases h
    · split at h
      · cases h
      · obtain rfl := Option.some.inj h
        exact fun t ht => hl t (mem_of_mem_readyTxs ht)

/-- The transactions of one sender, with the one that was simulated. -/
structure OfOrder (p : Transaction → Prop) (l : SimulatedTxList) : Prop where
  current : ∀ t ∈ l.current, p t.tx
  pending : OfList p l.pending

/-- Trimming adds nothing to a list. -/
theorem ofList_trim (hl : OfList p l) (current : Option SimulatedTx) :
    OfList p (SimulatedTxList.trim current l) := by
  unfold SimulatedTxList.trim
  split
  · exact hl
  · split
    · exact ofList_popFront hl
    · exact hl

/-- A new order has only what it is made from. -/
theorem ofOrder_new {current : Option SimulatedTx} (hl : OfList p l)
    (hcurrent : ∀ t ∈ current, p t.tx) : OfOrder p (.new current l) :=
  ⟨hcurrent, ofList_trim hl current⟩

/-- Popping adds nothing to an order. -/
theorem ofOrder_pop {l : SimulatedTxList} (hl : OfOrder p l) (baseFee : UInt64) :
    OfOrder p (l.pop baseFee).2 := by
  unfold SimulatedTxList.pop
  split
  · exact hl
  · split
    · exact ⟨fun _ h => (nomatch h), hl.pending⟩
    · exact hl

/-- A simulation is all that is put back. -/
theorem ofOrder_put {l : SimulatedTxList} {tx : SimulatedTx} (hl : OfOrder p l) (htx : p tx.tx) :
    OfOrder p (l.put tx) :=
  ⟨fun t ht => by rw [← Option.some.inj ht]; exact htx, hl.pending⟩

/-- What is simulated next is of the order. -/
theorem ofOrder_nextToSim {l : SimulatedTxList} (hl : OfOrder p l) :
    (∀ t ∈ l.nextToSim.1, p t) ∧ OfOrder p l.nextToSim.2 := by
  unfold SimulatedTxList.nextToSim
  split
  · rename_i t ht
    exact ⟨fun t' ht' => by rw [← Option.some.inj ht']; exact hl.current t ht, hl⟩
  · rename_i hnone
    refine ⟨fun t ht => of_head hl.pending ht, ?_, ofList_popFront hl.pending⟩
    rw [hnone]
    exact fun _ h => (nomatch h)

/-- An order of a simulation has only that. -/
theorem ofOrder_fromSimulated {tx : SimulatedTx} (htx : p tx.tx) : OfOrder p (.fromSimulated tx) :=
  ⟨fun t ht => by rw [← Option.some.inj ht]; exact htx, fun _ h => (nomatch h)⟩

/-! ## The pool -/

def OfOrders (p : Transaction → Prop) (orders : List SimulatedTxList) : Prop :=
  ∀ l ∈ orders, OfOrder p l

structure OfPool (p : Transaction → Prop) (pool : TxPool) : Prop where
  poolData : ∀ e ∈ pool.poolData.entries, OfList p e.2
  activeTxs : OfOrders p pool.activeTxs.txs

/-- Nothing is in the empty pool. -/
theorem ofPool_empty : OfPool p .empty :=
  ⟨fun _ h => (nomatch h), fun _ h => (nomatch h)⟩

/-- The list of a sender is of the pool. -/
theorem ofList_of_lookup (hpool : OfPool p pool) (h : pool.poolData.lookup sender = some l) :
    OfList p l :=
  hpool.poolData ⟨sender, l⟩ (AList.mem_lookup_iff.mp h)

/-- Inserting a list adds only that. -/
theorem ofEntries_insert {entries : HashMap Address TxList} (sender : Address)
    (h : ∀ e ∈ entries.entries, OfList p e.2) (hl : OfList p l) :
    ∀ e ∈ (entries.insert sender l).entries, OfList p e.2 := by
  intro e he
  have he' : e ∈ ⟨sender, l⟩ :: List.kerase sender entries.entries := he
  obtain rfl | hold := List.mem_cons.mp he'
  · exact hl
  · exact h e ((List.kerase_sublist _ _).subset hold)

variable {orders : List SimulatedTxList} {address : Address} {mined : List (Address × UInt64)}
  {requests : List SequencerToSimulator}

/-- Removing an order adds nothing. -/
theorem ofOrders_swapRemove (h : OfOrders p orders) (i : ℕ) : OfOrders p (swapRemove orders i) :=
  fun l hl => h l (mem_of_mem_swapRemove hl)

/-- `put` adds only its list to the active ones. -/
theorem ofOrders_activePut {l : SimulatedTxList} (ha : OfOrders p a.txs) (hl : OfOrder p l)
    (h : a.put l = some a') : OfOrders p a'.txs := by
  unfold Active.put at h
  split at h
  · split at h
    · obtain rfl := Option.some.inj h
      exact forall_set ha hl
    · cases h
  · obtain rfl := Option.some.inj h
    intro l' hl'
    obtain hold | hnew := List.mem_append.mp hl'
    · exact ha l' hold
    · rw [List.mem_singleton.mp hnew]
      exact hl

/-- A good change of an active list keeps the others. -/
theorem ofOrders_modifyTxList {f : SimulatedTxList → Option SimulatedTxList}
    (ha : OfOrders p a.txs) (hf : ∀ l l', OfOrder p l → f l = some l' → OfOrder p l')
    (h : a.modifyTxList sender f = some a') : OfOrders p a'.txs := by
  unfold Active.modifyTxList at h
  split at h
  · obtain rfl := Option.some.inj h
    exact ha
  · split at h
    · cases h
    · rename_i l hl
      split at h
      · cases h
      · rename_i l' hl'
        obtain rfl := Option.some.inj h
        exact forall_set ha (hf l l' (ha l (List.mem_of_getElem? hl)) hl')

/-- `remove` adds nothing to the active lists. -/
theorem ofOrders_remove {index : ℕ} (ha : OfOrders p a.txs) (h : a.remove index address = some a') :
    OfOrders p a'.txs := by
  have hrest := ofOrders_swapRemove ha index
  unfold Active.remove at h
  dsimp only at h
  split at h
  · split at h
    · obtain rfl := Option.some.inj h
      exact hrest
    · split at h
      · cases h
      · split at h
        · cases h
        · obtain rfl := Option.some.inj h
          exact hrest
  · cases h

/-- `forward` adds nothing to them. -/
theorem ofOrders_activeForward (ha : OfOrders p a.txs) (h : a.forward address nonce = some a') :
    OfOrders p a'.txs := by
  unfold Active.forward at h
  split at h
  · obtain rfl := Option.some.inj h
    exact ha
  · split at h
    · cases h
    · rename_i l hl
      have hl := ha l (List.mem_of_getElem? hl)
      have hpending := ofList_forward hl.pending nonce
      split at h
      · rename_i pending hforward
        rw [hforward] at hpending
        have horder : OfOrder p { l with pending := pending } := ⟨hl.current, hpending⟩
        refine ofOrders_remove ?_ h
        exact forall_set ha horder
      · rename_i pending hforward
        rw [hforward] at hpending
        obtain rfl := Option.some.inj h
        refine forall_set ha ⟨?_, hpending⟩
        dsimp only
        split
        · exact fun _ h => (nomatch h)
        · rename_i c hc
          split
          · exact fun _ h => (nomatch h)
          · exact fun t ht => hl.current t (by rw [hc]; exact ht)

/-- Simulations are asked for of the transaction only. -/
theorem of_sendSimRequestsForTx (htx : p tx) (simSender : Bool) :
    ∀ t ∈ TxPool.sendSimRequestsForTx tx simSender, p t := by
  unfold TxPool.sendSimRequestsForTx
  split
  · intro t ht
    rw [List.mem_singleton.mp ht]
    exact htx
  · exact fun _ h => (nomatch h)

/-- A sender whose next transaction can be mined. -/
theorem ofPool_activePut {poolData : HashMap Address TxList}
    (hdata : ∀ e ∈ poolData.entries, OfList p e.2) (ha : OfOrders p a.txs) (hl : OfList p l)
    (h : a.put (.new none l) = some a') : OfPool p ⟨poolData, a'⟩ := by
  have hcurrent : ∀ t ∈ (none : Option SimulatedTx), p t.tx := fun _ h => (nomatch h)
  exact ⟨hdata, ofOrders_activePut ha (ofOrder_new hl hcurrent) h⟩

/-- A sender whose transactions that follow are put in their place. -/
theorem ofOrders_newPending {stateNonce : UInt64} (ha : OfOrders p a.txs) (hl : OfList p l)
    (h : a.modifyTxList sender (fun order =>
      if l.nonceReady stateNonce baseFee nonce then (l.ready stateNonce baseFee).map order.newPending
      else some order) = some a') : OfOrders p a'.txs := by
  refine ofOrders_modifyTxList ha ?_ h
  intro order order' horder horder'
  split at horder'
  · obtain ⟨ready, hready, rfl⟩ := Option.map_eq_some_iff.mp horder'
    exact ⟨horder.current, ofList_trim (ofList_ready hl hready) _⟩
  · obtain rfl := Option.some.inj horder'
    exact horder

/-- Transactions are only added to the pool when they are new. -/
theorem ofPool_handleNewTx {syncing : Bool} (hpool : OfPool p pool) (htx : p tx)
    (h : pool.handleNewTx tx getNonce baseFee syncing simSender = some (pool', txs)) :
    OfPool p pool' ∧ ∀ t ∈ txs, p t := by
  have hnone : ∀ t ∈ ([] : List Transaction), p t := fun _ h => (nomatch h)
  have hsent := of_sendSimRequestsForTx htx simSender
  unfold TxPool.handleNewTx at h
  dsimp only at h
  split at h
  · obtain ⟨rfl, rfl⟩ := Prod.mk.inj (Option.some.inj h)
    exact ⟨hpool, hnone⟩
  · split at h
    · rename_i l hl
      have hput := ofList_put (ofList_of_lookup hpool hl) htx
      have hdata := ofEntries_insert tx.sender hpool.poolData hput
      split at h
      · obtain ⟨rfl, rfl⟩ := Prod.mk.inj (Option.some.inj h)
        exact ⟨hpool, hnone⟩
      · split at h
        · obtain ⟨rfl, rfl⟩ := Prod.mk.inj (Option.some.inj h)
          exact ⟨⟨hdata, hpool.activeTxs⟩, hnone⟩
        · split at h
          · obtain ⟨active, hactive, heq⟩ := Option.map_eq_some_iff.mp h
            obtain ⟨rfl, rfl⟩ := Prod.mk.inj heq
            exact ⟨ofPool_activePut hdata hpool.activeTxs hput hactive, hsent⟩
          · split at h
            · obtain ⟨active, hactive, heq⟩ := Option.map_eq_some_iff.mp h
              obtain ⟨rfl, rfl⟩ := Prod.mk.inj heq
              exact ⟨⟨hdata, ofOrders_newPending hpool.activeTxs hput hactive⟩, hnone⟩
            · obtain ⟨rfl, rfl⟩ := Prod.mk.inj (Option.some.inj h)
              exact ⟨⟨hdata, hpool.activeTxs⟩, hnone⟩
    · have hdata := ofEntries_insert tx.sender hpool.poolData (ofList_fromTx htx)
      split at h
      · obtain ⟨active, hactive, heq⟩ := Option.map_eq_some_iff.mp h
        obtain ⟨rfl, rfl⟩ := Prod.mk.inj heq
        exact ⟨ofPool_activePut hdata hpool.activeTxs (ofList_fromTx htx) hactive, hsent⟩
      · obtain ⟨rfl, rfl⟩ := Prod.mk.inj (Option.some.inj h)
        exact ⟨⟨hdata, hpool.activeTxs⟩, hnone⟩

/-- A simulation adds only its transaction. -/
theorem ofPool_handleSimulated {tx : SimulatedTx} (hpool : OfPool p pool) (htx : p tx.tx)
    (h : pool.handleSimulated tx = some pool') : OfPool p pool' := by
  unfold TxPool.handleSimulated at h
  split at h
  · obtain rfl := Option.some.inj h
    exact hpool
  · rename_i l hl
    obtain ⟨active, hactive, rfl⟩ := Option.map_eq_some_iff.mp h
    refine ⟨hpool.poolData, ofOrders_activePut hpool.activeTxs ?_ hactive⟩
    refine ofOrder_new (ofList_of_lookup hpool hl) fun t ht => ?_
    rw [← Option.some.inj ht]
    exact htx

/-- `remove` adds nothing to the pool. -/
theorem ofPool_remove (hpool : OfPool p pool) (h : pool.remove sender nonce = some pool') :
    OfPool p pool' := by
  unfold TxPool.remove at h
  dsimp only at h
  obtain ⟨active, hactive, rfl⟩ := Option.map_eq_some_iff.mp h
  refine ⟨?_, ofOrders_activeForward hpool.activeTxs hactive⟩
  dsimp only
  split
  · exact hpool.poolData
  · rename_i l hl
    have hforward := ofList_forward (ofList_of_lookup hpool hl) nonce
    split
    · exact fun e he => hpool.poolData e ((List.kerase_sublist _ _).subset he)
    · rename_i l' hl'
      rw [hl'] at hforward
      exact ofEntries_insert sender hpool.poolData hforward

/-- Removing what was mined adds nothing. -/
theorem ofPool_removeMinedTxs (hpool : OfPool p pool) (h : pool.removeMinedTxs mined = some pool') :
    OfPool p pool' :=
  TxPool.removeMinedTxs_induction (fun _ _ _ _ _ hpool => ofPool_remove hpool) hpool h

/-- The active list is filled from the pool. -/
theorem ofOrders_fillActive {senders : List (Address × TxList)} {active active' : Active}
    (hsenders : ∀ e ∈ senders, OfList p e.2) (hactive : OfOrders p active.txs)
    (h : TxPool.fillActive getNonce baseFee simSender senders active = some (active', txs)) :
    OfOrders p active'.txs := by
  induction senders generalizing active txs with
  | nil =>
    obtain ⟨rfl, -⟩ := Prod.mk.inj (Option.some.inj h)
    exact hactive
  | cons first rest ih =>
    have hrest : ∀ e ∈ rest, OfList p e.2 := fun e he => hsenders e (List.mem_cons_of_mem _ he)
    have hfirst := hsenders first List.mem_cons_self
    rw [TxPool.fillActive] at h
    split at h
    · exact ih hrest hactive h
    · split at h
      · cases h
      · split at h
        · cases h
        · rename_i active₁ hput
          obtain ⟨⟨active₂, txs₂⟩, hfill, heq⟩ := Option.map_eq_some_iff.mp h
          obtain ⟨rfl, -⟩ := Prod.mk.inj heq
          refine ih hrest (ofOrders_activePut hactive ?_ hput) hfill
          exact ofOrder_new hfirst fun _ h => (nomatch h)

/-- A new block only takes transactions out of the pool. -/
theorem ofPool_handleNewBlock {syncing : Bool} (hpool : OfPool p pool)
    (h : pool.handleNewBlock mined baseFee getNonce syncing simSender = some (pool', txs)) :
    OfPool p pool' := by
  unfold TxPool.handleNewBlock at h
  split at h
  · cases h
  · rename_i pool₁ hmined
    have hcleared : OfPool p { pool with activeTxs := .empty } :=
      ⟨hpool.poolData, fun _ h => (nomatch h)⟩
    have hpool₁ := ofPool_removeMinedTxs hcleared hmined
    split at h
    · obtain ⟨rfl, -⟩ := Prod.mk.inj (Option.some.inj h)
      exact hpool₁
    · obtain ⟨⟨active, txs₁⟩, hfill, heq⟩ := Option.map_eq_some_iff.mp h
      obtain ⟨rfl, -⟩ := Prod.mk.inj heq
      refine ⟨hpool₁.poolData, ofOrders_fillActive ?_ hpool₁.activeTxs hfill⟩
      intro e he
      obtain ⟨e', he', rfl⟩ := List.mem_map.mp he
      exact hpool₁.poolData e' he'

/-! ## The orders that are left -/

variable {S : Type}

/-- The orders of a block are the active ones. -/
theorem ofOrders_new (crates : Crates S) (h : OfOrders p orders) :
    OfOrders p (ActiveOrders.new crates orders) := by
  intro l hl
  obtain ⟨i, -, hi⟩ := List.mem_filterMap.mp hl
  exact h l (List.mem_of_getElem? hi)

/-- Moving an order on adds nothing. -/
theorem ofOrders_removeFromSender {orders orders' : ActiveOrders} (horders : OfOrders p orders)
    (h : orders.removeFromSender sender baseFee = some orders') : OfOrders p orders' := by
  unfold ActiveOrders.removeFromSender at h
  split at h
  · obtain rfl := Option.some.inj h
    exact horders
  · split at h
    · cases h
    · split at h
      · cases h
      · rename_i order horder
        have hpop := ofOrder_pop (horders order (List.mem_of_getElem? horder)) baseFee
        split at h
        · rename_i order' heq
          rw [heq] at hpop
          obtain rfl := Option.some.inj h
          exact ofOrders_swapRemove (forall_set horders hpop) _
        · rename_i order' heq
          rw [heq] at hpop
          obtain rfl := Option.some.inj h
          exact forall_set horders hpop

/-- Only the simulation is put back. -/
theorem ofOrders_put {orders : ActiveOrders} {tx : SimulatedTx} (horders : OfOrders p orders)
    (htx : p tx.tx) : OfOrders p (orders.put tx) := by
  unfold ActiveOrders.put
  split
  · intro l hl
    obtain ⟨j, hj⟩ := List.mem_iff_getElem?.mp hl
    rw [List.getElem?_modify] at hj
    obtain ⟨l₀, hl₀, rfl⟩ := Option.map_eq_some_iff.mp hj
    have hold := horders l₀ (List.mem_of_getElem? hl₀)
    split
    · exact ofOrder_put hold htx
    · exact hold
  · intro l hl
    obtain rfl | hold := List.eq_or_mem_of_mem_insertIdx hl
    · exact ofOrder_fromSimulated htx
    · exact horders l hold

/-- The orders that are sent are among those that are left. -/
theorem ofOrders_sendNextFrom {limit : UInt64} (horders : OfOrders p data.tofSnapshot)
    (h : data.sendNextFrom limit i = some (data', requests)) :
    OfOrders p data'.tofSnapshot ∧ ∀ request ∈ requests, p request.tx := by
  have hnone : ∀ request ∈ ([] : List SequencerToSimulator), p request.tx := fun _ h => (nomatch h)
  induction i generalizing data requests with
  | zero =>
    rw [SortingData.sendNextFrom] at h
    split at h
    · split at h
      · cases h
      · rename_i order horder
        have horder := ofOrder_nextToSim (horders order (List.mem_of_getElem? horder))
        split at h
        · obtain ⟨rfl, rfl⟩ := Prod.mk.inj (Option.some.inj h)
          exact ⟨ofOrders_swapRemove horders 0, hnone⟩
        · split at h
          · cases h
          · rename_i tx order' hnext
            rw [hnext] at horder
            obtain ⟨rfl, rfl⟩ := Prod.mk.inj (Option.some.inj h)
            refine ⟨forall_set horders horder.2, fun request hrequest => ?_⟩
            rw [List.mem_singleton.mp hrequest]
            exact horder.1 tx rfl
    · obtain ⟨rfl, rfl⟩ := Prod.mk.inj (Option.some.inj h)
      exact ⟨horders, hnone⟩
  | succ i ih =>
    rw [SortingData.sendNextFrom] at h
    split at h
    · split at h
      · cases h
      · rename_i order horder
        have horder := ofOrder_nextToSim (horders order (List.mem_of_getElem? horder))
        split at h
        · exact ih (ofOrders_swapRemove horders (i + 1)) h
        · split at h
          · cases h
          · rename_i tx order' hnext
            rw [hnext] at horder
            obtain ⟨⟨data₁, requests₁⟩, hrest, heq⟩ := Option.map_eq_some_iff.mp h
            obtain ⟨rfl, rfl⟩ := Prod.mk.inj heq
            have hset : OfOrders p (data.tofSnapshot.set (i + 1) order') :=
              forall_set horders horder.2
            obtain ⟨hdata, hrequests⟩ := ih (by exact hset) hrest
            refine ⟨hdata, fun request hrequest => ?_⟩
            obtain rfl | hrequest := List.mem_cons.mp hrequest
            · exact horder.1 tx rfl
            · exact hrequests request hrequest
    · obtain ⟨rfl, rfl⟩ := Prod.mk.inj (Option.some.inj h)
      exact ⟨horders, hnone⟩

/-- What is sent to be simulated is of the orders. -/
theorem ofOrders_sendNext {limit : UInt64} (horders : OfOrders p data.tofSnapshot)
    (h : data.sendNext limit = some (data', requests)) :
    OfOrders p data'.tofSnapshot ∧ ∀ request ∈ requests, p request.tx := by
  unfold SortingData.sendNext at h
  split at h
  · obtain ⟨rfl, rfl⟩ := Prod.mk.inj (Option.some.inj h)
    exact ⟨horders, fun _ h => (nomatch h)⟩
  · exact ofOrders_sendNextFrom horders h

/-- The orders that are left, and the best result so far. -/
structure OfSorting (p : Transaction → Prop) (data : SortingData) : Prop where
  tofSnapshot : OfOrders p data.tofSnapshot
  nextToBeApplied : ∀ t ∈ data.nextToBeApplied, p t.tx

/-- A result is kept as the best, put back, or dropped. -/
theorem ofSorting_handleSim {simulatedTx : Except SimulationError SimulatedTx}
    (hdata : OfSorting p data) (htx : ∀ t, simulatedTx = .ok t → p t.tx)
    (h : data.handleSim simulatedTx sender baseFee = some data') : OfSorting p data' := by
  unfold SortingData.handleSim at h
  dsimp only at h
  split at h
  · obtain ⟨orders, hremove, rfl⟩ := Option.map_eq_some_iff.mp h
    exact ⟨ofOrders_removeFromSender hdata.tofSnapshot hremove, hdata.nextToBeApplied⟩
  · rename_i tx
    split at h
    · obtain ⟨orders, hremove, rfl⟩ := Option.map_eq_some_iff.mp h
      exact ⟨ofOrders_removeFromSender hdata.tofSnapshot hremove, hdata.nextToBeApplied⟩
    · split at h
      · obtain rfl := Option.some.inj h
        refine ⟨?_, fun t ht => ?_⟩
        · dsimp only
          split
          · exact hdata.tofSnapshot
          · rename_i old hold
            exact ofOrders_put hdata.tofSnapshot (hdata.nextToBeApplied old hold)
        · rw [← Option.some.inj ht]
          exact htx tx rfl
      · obtain rfl := Option.some.inj h
        exact ⟨ofOrders_put hdata.tofSnapshot (htx tx rfl), hdata.nextToBeApplied⟩

end BasedOp.Analysis.PoolContents
