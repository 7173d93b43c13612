import BasedOp.Analysis.ActiveIndex

/-!
# The senders that a new block makes active

The active list holds copies of the lists of the pool. Every operation keeps both well
formed (`wellFormed_step`): the lists are in order, each of its sender, and the index is
right. A new block empties the active list and fills it with the senders whose first
transaction can be mined, which misses a sender with a transaction of a nonce that was
passed in front (`active_iff_noneBelow`).
-/

set_option autoImplicit false

namespace BasedOp.Analysis.ReadySenders

open BasedOp.Computation Model Model.Gateway
open PoolContents PoolRetention PoolAndChain
open ActiveIndex

/-! ## Well-formed lists -/

/-- The list of a sender: its transactions in order. -/
structure ListOf (sender : Address) (l : TxList) : Prop where
  ofSender : l.sender = sender
  ordered : Ordered l.txs
  own : OfList (fun t => t.sender = sender) l

/-- A list of one transaction. -/
theorem listOf_fromTx (tx : Transaction) : ListOf tx.sender (.fromTx tx) :=
  ⟨rfl, List.pairwise_singleton _ _, ofList_fromTx rfl⟩

/-- `put` keeps the sender. -/
theorem sender_put (l : TxList) (tx : Transaction) : (l.put tx).sender = l.sender := by
  unfold TxList.put
  split
  · rfl
  · split <;> rfl

variable {l : TxList} {tx : Transaction} {sender : Address} {nonce baseFee : UInt64}
  {pool pool' : TxPool} {getNonce : Address → UInt64}

/-- `put` keeps the list in order. -/
theorem listOf_put (h : ListOf tx.sender l) : ListOf tx.sender (l.put tx) :=
  ⟨(sender_put l tx).trans h.ofSender, ordered_put h.ordered, ofList_put h.own rfl⟩

/-- So does leaving some out. -/
theorem ListOf.of_sublist {l' : TxList} (h : ListOf sender l) (hsender : l'.sender = l.sender)
    (hsub : l'.txs.Sublist l.txs) : ListOf sender l' :=
  ⟨hsender.trans h.ofSender, h.ordered.sublist hsub, fun t ht => h.own t (hsub.subset ht)⟩

/-- `forward` keeps the list in order. -/
theorem listOf_forward (h : ListOf sender l) (nonce : UInt64) : ListOf sender (l.forward nonce).2 :=
  h.of_sublist (sender_forward l nonce) (forward_sublist l nonce)

/-- Trimming leaves some out. -/
theorem trim_sublist (current : Option SimulatedTx) (l : TxList) :
    (SimulatedTxList.trim current l).sender = l.sender ∧
      (SimulatedTxList.trim current l).txs.Sublist l.txs := by
  unfold SimulatedTxList.trim
  split
  · exact ⟨rfl, List.Sublist.refl _⟩
  · split
    · exact ⟨rfl, List.tail_sublist l.txs⟩
    · exact ⟨rfl, List.Sublist.refl _⟩

/-- What is ready is a part. -/
theorem readyTxs_sublist (baseFee nonce : UInt64) (txs : List Transaction) :
    (TxList.readyTxs baseFee nonce txs).Sublist txs := by
  induction txs generalizing nonce with
  | nil => exact .slnil
  | cons t txs ih =>
    unfold TxList.readyTxs
    split
    · exact List.nil_sublist _
    · exact (ih (nonce + 1)).cons_cons t

/-- So is the ready list. -/
theorem ready_sublist {ready : TxList} (h : l.ready nonce baseFee = some ready) :
    ready.sender = l.sender ∧ ready.txs.Sublist l.txs := by
  unfold TxList.ready at h
  split at h
  · cases h
  · split at h
    · cases h
    · split at h
      · cases h
      · obtain rfl := Option.some.inj h
        exact ⟨rfl, readyTxs_sublist baseFee nonce l.txs⟩

/-- The list of a sender in the active list. -/
structure OrderOf (l : SimulatedTxList) : Prop where
  pending : ListOf l.sender l.pending
  current : ∀ c ∈ l.current, c.sender = l.sender

/-- A new order of one sender. -/
theorem orderOf_new (h : ListOf sender l) (current : Option SimulatedTx)
    (hcurrent : ∀ c ∈ current, c.sender = sender) :
    OrderOf (.new current l) ∧ SimulatedTxList.sender (.new current l) = sender := by
  obtain ⟨hsender, hsub⟩ := trim_sublist current l
  have hsame : SimulatedTxList.sender (.new current l) = sender := hsender.trans h.ofSender
  refine ⟨⟨?_, ?_⟩, hsame⟩
  · rw [hsame]
    exact h.of_sublist hsender hsub
  · rw [hsame]
    exact hcurrent

/-- The lists of the pool are lists of their senders, so are those of the active list, and its
index is right. -/
structure WellFormed (pool : TxPool) : Prop where
  lists : ∀ sender l, pool.poolData.lookup sender = some l → ListOf sender l
  indexed : ActiveIndexed pool.activeTxs
  orders : ∀ l ∈ pool.activeTxs.txs, OrderOf l

/-- The empty pool is well formed. -/
theorem wellFormed_empty : WellFormed .empty where
  lists := fun _ _ h => nomatch h
  indexed := Indexed.empty
  orders := fun _ h => nomatch h

/-- The lists are ordered. -/
theorem orderedPool_of_wellFormed (h : WellFormed pool) : OrderedPool pool := by
  intro sender
  unfold senderTxs
  split
  · rename_i l hl
    exact (h.lists sender l hl).ordered
  · exact List.Pairwise.nil

/-- Inserting keeps the lists. -/
theorem lists_insert {lists : HashMap Address TxList}
    (h : ∀ sender l, lists.lookup sender = some l → ListOf sender l) (hl : ListOf sender l) :
    ∀ sender' l', (lists.insert sender l).lookup sender' = some l' → ListOf sender' l' := by
  intro sender' l' hl'
  by_cases heq : sender' = sender
  · rw [heq, AList.lookup_insert] at hl'
    obtain rfl := Option.some.inj hl'
    rw [heq]
    exact hl
  · rw [AList.lookup_insert_ne heq] at hl'
    exact h sender' l' hl'

/-- Putting keeps the orders. -/
theorem orders_of_puts {a a' : Active} {l : SimulatedTxList} (h : ∀ l ∈ a.txs, OrderOf l)
    (hl : OrderOf l) (hputs : PutsList a a' l) : ∀ l ∈ a'.txs, OrderOf l := by
  intro l' hl'
  obtain rfl | ⟨hold, -⟩ := (hputs l').mp hl'
  · exact hl
  · exact h l' hold

/-! ## A new transaction -/

/-- The list of the sender of a new transaction, with it. -/
def listWith (pool : TxPool) (tx : Transaction) : TxList :=
  match pool.poolData.lookup tx.sender with
  | some l => l.put tx
  | none => .fromTx tx

/-- The list with the arrival. -/
theorem listOf_listWith (h : WellFormed pool) (tx : Transaction) :
    ListOf tx.sender (listWith pool tx) := by
  unfold listWith
  split
  · rename_i l hl
    exact listOf_put (h.lists _ _ hl)
  · exact listOf_fromTx tx

/-- The pool does not take a new transaction: its nonce has been passed, or there is one with
its nonce that pays more.
SRCLINE: transaction/pool.rs:44-47,54-60 -/
def Refused (pool : TxPool) (tx : Transaction) (getNonce : Address → UInt64) (baseFee : UInt64) :
    Prop :=
  tx.nonce < getNonce tx.sender ∨ ∃ l, pool.poolData.lookup tx.sender = some l ∧
    l.getEffectivePriceForNonce tx.nonce baseFee > tx.tx.effectiveGasPrice baseFee

/-- What the active list of a sender becomes with a transaction that is not the next one.
SRCLINE: transaction/pool.rs:69-77 -/
def refresh (l : TxList) (stateNonce baseFee nonce : UInt64) (order : SimulatedTxList) :
    Option SimulatedTxList :=
  if l.nonceReady stateNonce baseFee nonce then (l.ready stateNonce baseFee).map order.newPending
  else some order

/-- What a new transaction does: the pool does not take it, or puts it in the list of its
sender, and of this the active list gets nothing, or all of it, or what is ready.
SRCLINE: transaction/pool.rs:28-94 -/
inductive NewTxStep (pool : TxPool) (tx : Transaction) (getNonce : Address → UInt64)
    (baseFee : UInt64) (syncing : Bool) : TxPool → Prop
  | refused (hrefused : Refused pool tx getNonce baseFee) :
      NewTxStep pool tx getNonce baseFee syncing pool
  | stored (htaken : ¬ Refused pool tx getNonce baseFee)
      (hquiet : syncing = true ∨ tx.validForBlock baseFee = false ∨
        (pool.poolData.lookup tx.sender = none ∧ tx.nonce ≠ getNonce tx.sender)) :
      NewTxStep pool tx getNonce baseFee syncing
        ⟨pool.poolData.insert tx.sender (listWith pool tx), pool.activeTxs⟩
  | first {active : Active} (htaken : ¬ Refused pool tx getNonce baseFee)
      (hput : pool.activeTxs.put (.new none (listWith pool tx)) = some active) :
      NewTxStep pool tx getNonce baseFee syncing
        ⟨pool.poolData.insert tx.sender (listWith pool tx), active⟩
  | later {active : Active} (htaken : ¬ Refused pool tx getNonce baseFee)
      (hnonce : tx.nonce ≠ getNonce tx.sender)
      (hmodify : pool.activeTxs.modifyTxList tx.sender
        (refresh (listWith pool tx) (getNonce tx.sender) baseFee tx.nonce) = some active) :
      NewTxStep pool tx getNonce baseFee syncing
        ⟨pool.poolData.insert tx.sender (listWith pool tx), active⟩

variable {requests : List Transaction} {stateNonce : UInt64} {order order' : SimulatedTxList}

/-- An arrival is one of these steps. -/
theorem newTxStep_of_handleNewTx {syncing simSender : Bool}
    (h : pool.handleNewTx tx getNonce baseFee syncing simSender = some (pool', requests)) :
    NewTxStep pool tx getNonce baseFee syncing pool' := by
  unfold TxPool.handleNewTx at h
  dsimp only at h
  split at h
  · rename_i hlow
    obtain ⟨rfl, -⟩ := Prod.mk.inj (Option.some.inj h)
    exact .refused (.inl hlow)
  · rename_i hlow
    split at h
    · rename_i l hl
      have hlist : l.put tx = listWith pool tx := by rw [listWith, hl]
      split at h
      · rename_i hprice
        obtain ⟨rfl, -⟩ := Prod.mk.inj (Option.some.inj h)
        exact .refused (.inr ⟨l, hl, hprice⟩)
      · rename_i hprice
        have htaken : ¬ Refused pool tx getNonce baseFee := by
          rintro (hlow' | ⟨l', hl', hprice'⟩)
          · exact hlow hlow'
          · obtain rfl := Option.some.inj (hl.symm.trans hl')
            exact hprice hprice'
        rw [hlist] at h
        split at h
        · rename_i hsyncing
          obtain ⟨rfl, -⟩ := Prod.mk.inj (Option.some.inj h)
          exact .stored htaken (.inl hsyncing)
        · split at h
          · obtain ⟨active, hactive, heq⟩ := Option.map_eq_some_iff.mp h
            obtain ⟨rfl, -⟩ := Prod.mk.inj heq
            exact .first htaken hactive
          · rename_i hnext
            split at h
            · rename_i hvalid
              have hnonce : tx.nonce ≠ getNonce tx.sender := by
                intro heq
                rw [heq, hvalid] at hnext
                simp at hnext
              obtain ⟨active, hactive, heq⟩ := Option.map_eq_some_iff.mp h
              obtain ⟨rfl, -⟩ := Prod.mk.inj heq
              exact .later htaken hnonce hactive
            · rename_i hvalid
              obtain ⟨rfl, -⟩ := Prod.mk.inj (Option.some.inj h)
              exact .stored htaken (.inr (.inl (Bool.not_eq_true _ ▸ hvalid)))
    · rename_i hnone
      have hlist : TxList.fromTx tx = listWith pool tx := by rw [listWith, hnone]
      have htaken : ¬ Refused pool tx getNonce baseFee := by
        rintro (hlow' | ⟨l', hl', -⟩)
        · exact hlow hlow'
        · rw [hnone] at hl'
          cases hl'
      split at h
      · obtain ⟨active, hactive, heq⟩ := Option.map_eq_some_iff.mp h
        obtain ⟨rfl, -⟩ := Prod.mk.inj heq
        rw [hlist] at hactive
        rw [show (TxList.fromTx tx).sender = tx.sender from rfl, hlist]
        exact .first htaken hactive
      · rename_i hquiet
        obtain ⟨rfl, -⟩ := Prod.mk.inj (Option.some.inj h)
        rw [show (TxList.fromTx tx).sender = tx.sender from rfl, hlist]
        refine .stored htaken ?_
        -- one of the three tests has failed
        cases syncing with
        | true => exact .inl rfl
        | false =>
          cases hvalid : tx.validForBlock baseFee with
          | false => exact .inr (.inl rfl)
          | true =>
            refine .inr (.inr ⟨hnone, fun heq => hquiet ?_⟩)
            rw [hvalid, heq, beq_self_eq_true]
            rfl

/-- What a refresh changes. -/
theorem sender_refresh (hl : ListOf order.sender l)
    (h : refresh l stateNonce baseFee nonce order = some order') :
    order'.sender = order.sender ∧ order'.current = order.current ∧
      ((l.nonceReady stateNonce baseFee nonce = false ∧ order' = order) ∨
        order'.pending.txs.Sublist l.txs) := by
  unfold refresh at h
  split at h
  · obtain ⟨ready, hsome, rfl⟩ := Option.map_eq_some_iff.mp h
    obtain ⟨hsender, hsub⟩ := ready_sublist hsome
    obtain ⟨hsender', hsub'⟩ := trim_sublist order.current ready
    exact ⟨(hsender'.trans hsender).trans hl.ofSender, rfl, .inr (hsub'.trans hsub)⟩
  · rename_i hready
    obtain rfl := Option.some.inj h
    exact ⟨rfl, rfl, .inl ⟨Bool.not_eq_true _ ▸ hready, rfl⟩⟩

/-- A refresh keeps an order. -/
theorem orderOf_refresh (horder : OrderOf order) (hl : ListOf order.sender l)
    (h : refresh l stateNonce baseFee nonce order = some order') : OrderOf order' := by
  obtain ⟨hsender, hcurrent, ⟨-, rfl⟩ | hsub⟩ := sender_refresh hl h
  · exact horder
  · refine ⟨?_, ?_⟩
    · rw [hsender]
      exact hl.of_sublist (hsender.trans hl.ofSender.symm) hsub
    · rw [hsender, hcurrent]
      exact horder.current

/-! ## Every operation keeps the pool well formed -/

/-- An arrival keeps the pool well formed. -/
theorem wellFormed_newTx {syncing : Bool} (h : WellFormed pool)
    (hstep : NewTxStep pool tx getNonce baseFee syncing pool') : WellFormed pool' := by
  have hlist := listOf_listWith h tx
  have hlists := lists_insert h.lists hlist
  cases hstep with
  | refused => exact h
  | stored => exact ⟨hlists, h.indexed, h.orders⟩
  | first _ hput =>
    obtain ⟨a', heq, hindexed, hputs⟩ := put_spec h.indexed (.new none (listWith pool tx))
    obtain rfl := Option.some.inj (hput.symm.trans heq)
    have horder := (orderOf_new hlist none fun _ h => nomatch h).1
    exact ⟨hlists, hindexed, orders_of_puts h.orders horder hputs⟩
  | later _ _ hmodify =>
    obtain ⟨hindexed, ⟨-, rfl⟩ | ⟨l, l', hentry, hl', hputs⟩⟩ :=
      modifyTxList_spec h.indexed (fun l l' hsender hl' =>
        (sender_refresh (hsender ▸ hlist) hl').1.trans hsender) hmodify
    · exact ⟨hlists, h.indexed, h.orders⟩
    · obtain ⟨hmem, hsender⟩ := h.indexed.find_eq_some_iff.mp hentry
      have horder := orderOf_refresh (h.orders l hmem) (hsender ▸ hlist) hl'
      exact ⟨hlists, hindexed, orders_of_puts h.orders horder hputs⟩

/-- A simulation keeps the pool well formed. -/
theorem wellFormed_handleSimulated {tx : SimulatedTx} (h : WellFormed pool)
    (hstep : pool.handleSimulated tx = some pool') : WellFormed pool' := by
  unfold TxPool.handleSimulated at hstep
  split at hstep
  · rw [← Option.some.inj hstep]
    exact h
  · rename_i l hl
    obtain ⟨active, hput, rfl⟩ := Option.map_eq_some_iff.mp hstep
    obtain ⟨a', heq, hindexed, hputs⟩ := put_spec h.indexed (.new (some tx) l)
    obtain rfl := Option.some.inj (hput.symm.trans heq)
    have horder := (orderOf_new (h.lists _ _ hl) (some tx) fun c hc =>
      congrArg SimulatedTx.sender (Option.some.inj hc).symm).1
    exact ⟨h.lists, hindexed, orders_of_puts h.orders horder hputs⟩

/-- What is kept is an order. -/
theorem orderOf_keptAbove {l : SimulatedTxList} (h : OrderOf l) (nonce : UInt64) :
    OrderOf (keptAbove l nonce) := by
  have hsender : (keptAbove l nonce).sender = l.sender := sender_forward l.pending nonce
  refine ⟨?_, ?_⟩
  · rw [hsender]
    exact listOf_forward h.pending nonce
  · rw [hsender]
    intro c hc
    exact h.current c (Option.mem_filter_iff.mp hc).1

/-- A removal never panics, and keeps the pool well formed. -/
theorem wellFormed_remove (h : WellFormed pool) (sender : Address) (nonce : UInt64) :
    ∃ pool', pool.remove sender nonce = some pool' ∧ WellFormed pool' := by
  obtain ⟨a', hforward, hindexed, hspec⟩ := forward_spec h.indexed sender nonce
  have horders : ∀ l ∈ a'.txs, OrderOf l := by
    intro l' hl'
    split at hspec
    · rw [hspec] at hl'
      exact h.orders l' hl'
    · rename_i l hentry
      split at hspec
      · exact h.orders l' ((hspec l').mp hl').1
      · have hl := h.orders l (h.indexed.find_eq_some_iff.mp hentry).1
        exact orders_of_puts h.orders (orderOf_keptAbove hl nonce) hspec l' hl'
  unfold TxPool.remove
  dsimp only
  rw [hforward]
  refine ⟨_, rfl, ?_, hindexed, horders⟩
  dsimp only
  split
  · exact h.lists
  · rename_i l hl
    have hl' := listOf_forward (h.lists sender l hl) nonce
    split
    · intro other l'' hother
      by_cases heq : other = sender
      · rw [heq, AList.lookup_erase] at hother
        cases hother
      · rw [AList.lookup_erase_ne heq] at hother
        exact h.lists other l'' hother
    · rename_i l'' heq
      rw [heq] at hl'
      exact lists_insert h.lists hl'

/-- Removals succeed and keep it. -/
theorem wellFormed_removeMinedTxs (h : WellFormed pool) (mined : List (Address × UInt64)) :
    ∃ pool', pool.removeMinedTxs mined = some pool' ∧ WellFormed pool' := by
  induction mined generalizing pool with
  | nil => exact ⟨pool, rfl, h⟩
  | cons r mined ih =>
    obtain ⟨pool₁, hremove, h₁⟩ := wellFormed_remove h r.1 r.2
    rw [TxPool.removeMinedTxs, hremove]
    exact ih h₁

/-- A ready list is not empty. -/
theorem exists_peek_of_ready {ready : TxList} (h : l.ready nonce baseFee = some ready) :
    ∃ first, ready.peek = some first := by
  unfold TxList.ready at h
  split at h
  · cases h
  · split at h
    · cases h
    · split at h
      · cases h
      · rename_i txs hne
        obtain rfl := Option.some.inj h
        unfold TxList.peek
        dsimp only
        cases htxs : TxList.readyTxs baseFee nonce l.txs with
        | nil => exact absurd htxs hne
        | cons first => exact ⟨first, rfl⟩

/-- The loop that fills the active list never panics, and gives an entry to each
sender whose list has something ready. -/
theorem fillActive_spec (getNonce : Address → UInt64) (baseFee : UInt64) (simSender : Bool)
    {lists : List (Address × TxList)} {active : Active} (hindexed : ActiveIndexed active)
    (horders : ∀ l ∈ active.txs, OrderOf l) (hlists : ∀ e ∈ lists, ListOf e.1 e.2) :
    ∃ active' requests,
      TxPool.fillActive getNonce baseFee simSender lists active = some (active', requests) ∧
      ActiveIndexed active' ∧ (∀ l ∈ active'.txs, OrderOf l) ∧
      ∀ sender, entry active' sender = none ↔ entry active sender = none ∧
        ∀ e ∈ lists, e.1 = sender → e.2.ready (getNonce sender) baseFee = none := by
  induction lists generalizing active with
  | nil =>
    refine ⟨active, [], rfl, hindexed, horders, fun sender => ?_⟩
    exact ⟨fun h => ⟨h, fun _ he => absurd he List.not_mem_nil⟩, And.left⟩
  | cons e rest ih =>
    obtain ⟨sender₁, l⟩ := e
    have hl : ListOf sender₁ l := hlists (sender₁, l) List.mem_cons_self
    have hrest : ∀ e ∈ rest, ListOf e.1 e.2 := fun e he => hlists e (List.mem_cons_of_mem _ he)
    rw [TxPool.fillActive]
    cases hready : l.ready (getNonce sender₁) baseFee with
    | none =>
      obtain ⟨active', requests, hfill, hindexed', horders', hentry⟩ := ih hindexed horders hrest
      refine ⟨active', requests, hfill, hindexed', horders', fun sender => ?_⟩
      rw [hentry sender]
      refine and_congr_right fun _ => ⟨fun h e he => ?_, fun h e he => ?_⟩
      · obtain rfl | he := List.mem_cons.mp he
        · rintro rfl
          exact hready
        · exact h e he
      · exact h e (List.mem_cons_of_mem _ he)
    | some =>
      obtain ⟨first, hfirst⟩ := exists_peek_of_ready hready
      obtain ⟨active₁, hput, hindexed₁, hputs⟩ := put_spec hindexed (.new none l)
      obtain ⟨horder, hsender⟩ :=
        orderOf_new hl none fun c h => absurd h.symm (Option.some_ne_none c)
      obtain ⟨hself, hothers⟩ := entry_of_puts hindexed hindexed₁ hputs
      rw [hsender] at hself hothers
      obtain ⟨active', requests, hfill, hindexed', horders', hentry⟩ :=
        ih hindexed₁ (orders_of_puts horders horder hputs) hrest
      dsimp only
      rw [hfirst]
      dsimp only
      rw [hput]
      dsimp only
      rw [hfill]
      refine ⟨active', _, rfl, hindexed', horders', fun sender => ?_⟩
      rw [hentry sender]
      by_cases heq : sender = sender₁
      · -- it has an entry, and something ready
        rw [heq, hself]
        refine iff_of_false (fun h => Option.some_ne_none _ h.1) fun h => ?_
        rw [h.2 (sender₁, l) List.mem_cons_self rfl] at hready
        cases hready
      · rw [hothers sender heq]
        refine and_congr_right fun _ => ⟨fun h e he => ?_, fun h e he => ?_⟩
        · obtain rfl | he := List.mem_cons.mp he
          · intro hsame
            exact absurd hsame.symm heq
          · exact h e he
        · exact h e (List.mem_cons_of_mem _ he)

/-- Clearing the active list keeps the pool so. -/
theorem wellFormed_cleared (h : WellFormed pool) :
    WellFormed { pool with activeTxs := .empty } where
  lists := h.lists
  indexed := Indexed.empty
  orders := fun _ h => nomatch h

/-- The entries are lists of their keys. -/
theorem listOf_entries (h : WellFormed pool) :
    ∀ e ∈ pool.poolData.entries.map (fun e => (e.1, e.2)), ListOf e.1 e.2 := by
  intro e he
  obtain ⟨⟨sender, l⟩, hmem, rfl⟩ := List.mem_map.mp he
  exact h.lists sender l (AList.mem_lookup_iff.mpr hmem)

/-- A new block never panics on a well-formed pool, and keeps it well formed. -/
theorem wellFormed_handleNewBlock (h : WellFormed pool) (mined : List (Address × UInt64))
    (baseFee : UInt64) (getNonce : Address → UInt64) (syncing simSender : Bool) :
    ∃ pool' requests,
      pool.handleNewBlock mined baseFee getNonce syncing simSender = some (pool', requests) ∧
      WellFormed pool' := by
  obtain ⟨pool₁, hmined, h₁⟩ := wellFormed_removeMinedTxs (wellFormed_cleared h) mined
  obtain ⟨active, requests, hfill, hindexed, horders, -⟩ :=
    fillActive_spec getNonce baseFee simSender h₁.indexed h₁.orders (listOf_entries h₁)
  unfold TxPool.handleNewBlock
  rw [hmined]
  dsimp only
  cases syncing with
  | true => exact ⟨pool₁, [], rfl, h₁⟩
  | false =>
    rw [hfill]
    exact ⟨_, requests, rfl, h₁.lists, hindexed, horders⟩

/-- Every operation keeps the pool well formed. -/
theorem wellFormed_step {op : PoolOp} (h : WellFormed pool)
    (hstep : poolStep pool op = some pool') : WellFormed pool' := by
  cases op with
  | handleNewTx =>
    obtain ⟨⟨pool₁, requests⟩, hnew, rfl⟩ := Option.map_eq_some_iff.mp hstep
    exact wellFormed_newTx h (newTxStep_of_handleNewTx hnew)
  | handleSimulated => exact wellFormed_handleSimulated h hstep
  | remove sender nonce =>
    obtain ⟨pool₁, heq, h₁⟩ := wellFormed_remove h sender nonce
    obtain rfl := Option.some.inj (hstep.symm.trans heq)
    exact h₁
  | removeMinedTxs mined =>
    obtain ⟨pool₁, heq, h₁⟩ := wellFormed_removeMinedTxs h mined
    obtain rfl := Option.some.inj (hstep.symm.trans heq)
    exact h₁
  | handleNewBlock mined baseFee getNonce syncing simSender =>
    obtain ⟨⟨pool₁, requests⟩, hblock, rfl⟩ := Option.map_eq_some_iff.mp hstep
    obtain ⟨pool₂, requests₂, heq, h₂⟩ :=
      wellFormed_handleNewBlock h mined baseFee getNonce syncing simSender
    obtain ⟨rfl, -⟩ := Prod.mk.inj (Option.some.inj (hblock.symm.trans heq))
    exact h₂

/-- Every pool that is reached is well formed. -/
theorem wellFormed_of_run {ops : List PoolOp} (hrun : runSteps poolStep .empty ops = some pool) :
    WellFormed pool :=
  runSteps_induction (fun _ _ _ => wellFormed_step) wellFormed_empty hrun

/-! ## The senders that a new block makes active -/

/-- What is left of the transactions of a sender once those that were mined are removed. -/
def leftOf (sender : Address) : List (Address × UInt64) → List Transaction → List Transaction
  | [], txs => txs
  | (minedBy, nonce) :: mined, txs =>
    leftOf sender mined
      (if sender = minedBy then (TxList.forward { sender := minedBy, txs := txs } nonce).2.txs
      else txs)

/-- What removals leave of a sender. -/
theorem senderTxs_removeMinedTxs {mined : List (Address × UInt64)}
    (h : pool.removeMinedTxs mined = some pool') (sender : Address) :
    senderTxs pool' sender = leftOf sender mined (senderTxs pool sender) := by
  induction mined generalizing pool with
  | nil =>
    obtain rfl := Option.some.inj h
    rfl
  | cons r mined ih =>
    obtain ⟨minedBy, nonce⟩ := r
    rw [TxPool.removeMinedTxs] at h
    split at h
    · cases h
    · rename_i pool₁ hremove
      rw [ih h, updates_remove hremove sender, leftOf]
      by_cases heq : sender = minedBy
      · rw [if_pos heq, if_pos heq, heq]
      · rw [if_neg heq, if_neg heq]

/-- Something is ready when the first transaction has the nonce and pays the base fee. -/
theorem ready_ne_none_iff :
    l.ready nonce baseFee ≠ none ↔
      ∃ first, l.peek = some first ∧ first.nonce = nonce ∧ first.validForBlock baseFee = true := by
  unfold TxList.ready TxList.peekNonce TxList.peek
  cases l.txs with
  | nil => simp
  | cons first =>
    rw [List.head?_cons, Option.map_some]
    dsimp only
    rw [TxList.readyTxs]
    by_cases hfirst : first.nonce = nonce ∧ first.validForBlock baseFee = true
    · have hready : ¬ (first.nonce ≠ nonce ∨ (!first.validForBlock baseFee) = true) := by
        simp [hfirst]
      have hle : ¬ first.nonce > nonce := by
        rw [hfirst.1]
        exact UInt64.lt_irrefl nonce
      rw [if_neg hready, if_neg hle]
      exact iff_of_true (Option.some_ne_none _) ⟨first, rfl, hfirst⟩
    · have hready : first.nonce ≠ nonce ∨ (!first.validForBlock baseFee) = true := by
        by_cases hnonce : first.nonce = nonce
        · refine .inr ?_
          simpa using fun hvalid => hfirst ⟨hnonce, hvalid⟩
        · exact .inl hnonce
      rw [if_pos hready]
      refine iff_of_false ?_ ?_
      · rw [ite_self]
        exact fun h => h rfl
      · rintro ⟨other, hother, hnonce, hvalid⟩
        obtain rfl := Option.some.inj hother
        exact hfirst ⟨hnonce, hvalid⟩

/-- A sender has a transaction of its next nonce that pays the base fee. -/
def Mineable (txs : List Transaction) (nonce baseFee : UInt64) : Prop :=
  ∃ t ∈ txs, t.nonce = nonce ∧ t.validForBlock baseFee = true

/-- In a list in order a transaction that can be mined is the first one just when
no nonce in the list is lower. -/
theorem ready_ne_none_of_mineable (h : Ordered l.txs) (hmineable : Mineable l.txs nonce baseFee) :
    l.ready nonce baseFee ≠ none ↔ ∀ u ∈ l.txs, ¬ u.nonce < nonce := by
  obtain ⟨t, ht, hnonce, hvalid⟩ := hmineable
  rw [ready_ne_none_iff, TxList.peek]
  cases htxs : l.txs with
  | nil =>
    rw [htxs] at ht
    cases ht
  | cons first =>
    rw [htxs] at ht h
    have hlower := (List.pairwise_cons.mp h).1
    constructor
    · rintro ⟨_, hfirst, rfl, -⟩ u hu
      obtain rfl := Option.some.inj hfirst
      obtain rfl | hu := List.mem_cons.mp hu
      · exact UInt64.lt_irrefl _
      · exact UInt64.lt_asymm (hlower u hu)
    · intro hnone
      -- what comes before the transaction has a lower nonce, so it is the first
      obtain rfl | ht := List.mem_cons.mp ht
      · exact ⟨t, rfl, hnonce, hvalid⟩
      · exact absurd (hnonce ▸ hlower t ht) (hnone first List.mem_cons_self)

/-- Every sender that has a transaction of its next nonce that pays the base fee is in the
active list. -/
def MineableActive (pool : TxPool) (getNonce : Address → UInt64) (baseFee : UInt64) : Prop :=
  ∀ sender, Mineable (senderTxs pool sender) (getNonce sender) baseFee →
    entry pool.activeTxs sender ≠ none

/-- Of a sender with a transaction that can be mined, nothing is left that has a lower nonce
than the database. -/
def NoneBelow (pool : TxPool) (mined : List (Address × UInt64)) (getNonce : Address → UInt64)
    (baseFee : UInt64) : Prop :=
  ∀ sender, Mineable (leftOf sender mined (senderTxs pool sender)) (getNonce sender) baseFee →
    ∀ u ∈ leftOf sender mined (senderTxs pool sender), ¬ u.nonce < getNonce sender

/-- Just the ready senders become active. -/
theorem entry_fillActive (h : WellFormed pool) (hempty : pool.activeTxs = .empty)
    {simSender : Bool} {active : Active} (hfill : TxPool.fillActive getNonce baseFee simSender
      (pool.poolData.entries.map fun e => (e.1, e.2)) pool.activeTxs = some (active, requests))
    (hl : pool.poolData.lookup sender = some l) :
    entry active sender ≠ none ↔ l.ready (getNonce sender) baseFee ≠ none := by
  obtain ⟨active', requests', heq, -, -, hentry⟩ :=
    fillActive_spec getNonce baseFee simSender h.indexed h.orders (listOf_entries h)
  obtain ⟨rfl, -⟩ := Prod.mk.inj (Option.some.inj (hfill.symm.trans heq))
  rw [ne_eq, hentry sender, hempty]
  refine not_congr ⟨fun hnone => ?_, fun hnone => ⟨rfl, fun e he hsender => ?_⟩⟩
  · exact hnone.2 (sender, l) (List.mem_map.mpr ⟨⟨sender, l⟩, AList.mem_lookup_iff.mp hl, rfl⟩) rfl
  · obtain ⟨⟨sender', l'⟩, hmem, rfl⟩ := List.mem_map.mp he
    obtain rfl : sender' = sender := hsender
    obtain rfl := Option.some.inj (hl.symm.trans (AList.mem_lookup_iff.mpr hmem))
    exact hnone

/-- After a new block, in every pool that can be reached, the senders that have a transaction of
their next nonce that pays the base fee are all in the active list just when, of such a sender, the
removal of what was mined has left nothing of a lower nonce: `ready` starts at the first transaction
of the list, and not at the nonce it is given.
SRCLINE: transaction/pool.rs:134-161, transaction/tx_list.rs:59-83 -/
theorem active_iff_noneBelow {ops : List PoolOp} {pool : TxPool}
    (hrun : runSteps poolStep .empty ops = some pool) (mined : List (Address × UInt64))
    (baseFee : UInt64) (getNonce : Address → UInt64) (simSender : Bool) :
    ∃ pool' requests,
      pool.handleNewBlock mined baseFee getNonce false simSender = some (pool', requests) ∧
      (MineableActive pool' getNonce baseFee ↔ NoneBelow pool mined getNonce baseFee) := by
  have h := wellFormed_of_run hrun
  obtain ⟨pool₁, hmined, h₁⟩ := wellFormed_removeMinedTxs (wellFormed_cleared h) mined
  have hempty := activeTxs_removeMinedTxs rfl hmined
  obtain ⟨active, requests, hfill, -⟩ :=
    fillActive_spec getNonce baseFee simSender h₁.indexed h₁.orders (listOf_entries h₁)
  refine ⟨{ pool₁ with activeTxs := active }, requests, ?_, ?_⟩
  · unfold TxPool.handleNewBlock
    rw [hmined]
    dsimp only
    rw [hfill]
    rfl
  · refine forall_congr' fun sender => ?_
    have hleft : senderTxs { pool₁ with activeTxs := active } sender =
        leftOf sender mined (senderTxs pool sender) := senderTxs_removeMinedTxs hmined sender
    rw [hleft]
    refine forall_congr' fun hmineable => ?_
    cases hl : pool₁.poolData.lookup sender with
    | none =>
      have hnil : leftOf sender mined (senderTxs pool sender) = [] :=
        hleft.symm.trans (senderTxs_of_none hl)
      obtain ⟨t, ht, -⟩ := hmineable
      rw [hnil] at ht
      cases ht
    | some l =>
      have htxs : leftOf sender mined (senderTxs pool sender) = l.txs :=
        hleft.symm.trans (senderTxs_of_lookup hl)
      rw [htxs] at hmineable ⊢
      rw [entry_fillActive h₁ hempty hfill hl]
      exact ready_ne_none_of_mineable (h₁.lists sender l hl).ordered hmineable

/-- A nonce is mined and the next is ready. -/
theorem active_iff_noneBelow_mined :
    ∃ pool, runSteps poolStep .empty [arrives 1, arrives 2] = some pool ∧
      ∃ pool' requests, pool.handleNewBlock [(7, 1)] 1 (fun _ => 2) false false =
          some (pool', requests) ∧
        (MineableActive pool' (fun _ => 2) 1 ↔ NoneBelow pool [(7, 1)] (fun _ => 2) 1) := by
  have hview : (runSteps poolStep .empty [arrives 1, arrives 2]).isSome = true := by
    decide +kernel
  obtain ⟨pool, hrun⟩ := Option.isSome_iff_exists.mp hview
  exact ⟨pool, hrun, active_iff_noneBelow hrun [(7, 1)] 1 (fun _ => 2) false⟩

/-- The pool has the nonces 1 and 3 of a sender, and the nonces before 3 were used by
transactions that are not reported to it: the third can be mined and is not offered.
SRCLINE: transaction/tx_list.rs:69-72 -/
theorem mineable_not_active :
    ∃ pool pool' requests, runSteps poolStep .empty [arrives 1, arrives 3] = some pool ∧
      pool.handleNewBlock [] 1 (fun _ => 3) false false = some (pool', requests) ∧
      ¬ MineableActive pool' (fun _ => 3) 1 := by
  have hview : ((runSteps poolStep .empty [arrives 1, arrives 3]).bind fun pool =>
      (pool.handleNewBlock [] 1 (fun _ => 3) false false).map fun r =>
        (decide (plainRawTx [3] ∈ senderTxs r.1 7), (entry r.1.activeTxs 7).isNone)) =
        some (true, true) := by
    decide +kernel
  obtain ⟨pool, hrun, hview⟩ := Option.bind_eq_some_iff.mp hview
  obtain ⟨⟨pool', requests⟩, hblock, heq⟩ := Option.map_eq_some_iff.mp hview
  obtain ⟨hmem, hnone⟩ := Prod.mk.inj heq
  refine ⟨pool, pool', requests, hrun, hblock, fun hactive => ?_⟩
  have hmineable : Mineable (senderTxs pool' 7) 3 1 :=
    ⟨plainRawTx [3], of_decide_eq_true hmem, by decide +kernel, by decide +kernel⟩
  exact hactive 7 hmineable (Option.isNone_iff_eq_none.mp hnone)

end BasedOp.Analysis.ReadySenders
