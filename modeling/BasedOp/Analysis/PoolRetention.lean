import BasedOp.Computation.Runs
import BasedOp.Model.SequencerState

/-!
# How long a transaction stays in the pool

The transactions of a sender are kept in the order of their nonces. One of them leaves the
pool when another of its nonce replaces it, which pays no less, or when nonces from its own
on are removed. That a removal takes no transaction of a higher nonce depends on what is
removed: the loop stops at the nonce itself, and if that is not there it takes them all.
-/

set_option autoImplicit false

namespace BasedOp.Analysis.PoolRetention

open BasedOp.Computation Model Model.Gateway

/-! ## The transactions of one sender -/

/-- The transactions are in the order of their nonces, which differ. -/
def Ordered (txs : List Transaction) : Prop := txs.Pairwise fun a b => a.nonce < b.nonce

instance (txs : List Transaction) : Decidable (Ordered txs) :=
  inferInstanceAs (Decidable (txs.Pairwise _))

/-! Neither `put` nor `forward` looks at the sender of a list. -/

/-- The sender does not matter to `put`. -/
theorem txs_put (l : TxList) (sender : Address) (tx : Transaction) :
    (TxList.put { sender, txs := l.txs } tx).txs = (l.put tx).txs := by
  unfold TxList.put TxList.search
  dsimp only
  split
  · rfl
  · split <;> rfl

/-- The sender does not matter to `forward`. -/
theorem txs_forward (l : TxList) (sender : Address) (nonce : UInt64) :
    (TxList.forward { sender, txs := l.txs } nonce).2.txs = (l.forward nonce).2.txs := by
  unfold TxList.forward
  dsimp only
  split <;> rfl

variable {txs requests : List Transaction} {l : TxList} {tx t : Transaction}
  {nonce baseFee : UInt64} {pool pool' : TxPool} {sender : Address} {getNonce : Address → UInt64}
  {syncing simSender : Bool} {mined : List (Address × UInt64)}

/-- An ordered list can be searched. -/
theorem partitioned_of_ordered (h : Ordered txs) (nonce : UInt64) :
    Partitioned (fun tx : Transaction => compare tx.nonce nonce) txs :=
  partitioned_of_le (h.imp UInt64.le_of_lt) nonce

/-- A transaction is put in the place of the one with its nonce, or between the
lower and the higher ones. -/
theorem split_of_put (h : Ordered l.txs) :
    (∃ before old after, l.txs = before ++ old :: after ∧ old.nonce = tx.nonce ∧
      (l.put tx).txs = before ++ tx :: after) ∨
    (∃ before after, l.txs = before ++ after ∧ (∀ t ∈ before, t.nonce < tx.nonce) ∧
      (∀ t ∈ after, tx.nonce < t.nonce) ∧ (l.put tx).txs = before ++ tx :: after) := by
  have hpartitioned := partitioned_of_ordered h tx.nonce
  unfold TxList.put
  split
  · rename_i hlast
    refine .inr ⟨l.txs, [], (List.append_nil _).symm, ?_, by simp, rfl⟩
    -- the last one is lower, and so are all before it
    intro t ht
    cases hxs : l.txs.getLast? with
    | none =>
      rw [List.getLast?_eq_none_iff.mp hxs] at ht
      cases ht
    | some last =>
      rw [hxs] at hlast
      have hlt : last.nonce < tx.nonce := by simpa using hlast
      obtain ⟨front, hfront⟩ := List.getLast?_eq_some_iff.mp hxs
      rw [hfront] at ht h
      obtain ht | ht := List.mem_append.mp ht
      · exact UInt64.lt_trans ((List.pairwise_append.mp h).2.2 t ht last List.mem_cons_self) hlt
      · rw [List.mem_singleton.mp ht]
        exact hlt
  · split
    · rename_i index hsearch
      obtain ⟨before, old, after, htxs, rfl, heq⟩ :=
        isBinarySearch_binarySearchBy.ok hpartitioned hsearch
      exact .inl ⟨before, old, after, htxs, Std.compare_eq_iff_eq.mp heq,
        by rw [htxs]; exact set_append _ _ _ _⟩
    · rename_i index hsearch
      obtain ⟨before, after, htxs, rfl, hbefore, hafter⟩ :=
        isBinarySearch_binarySearchBy.error hpartitioned hsearch
      refine .inr ⟨before, after, htxs, ?_, ?_, by rw [htxs]; exact insertIdx_append _ _ _⟩
      · intro t ht
        exact Std.compare_eq_lt.mp (hbefore t ht)
      · intro t ht
        exact Std.compare_eq_gt.mp (hafter t ht)

/-- `put` keeps the order. -/
theorem ordered_put (h : Ordered l.txs) : Ordered (l.put tx).txs := by
  obtain ⟨before, old, after, htxs, hnonce, hput⟩ | ⟨before, after, htxs, hbefore, hafter, hput⟩ :=
    split_of_put h
  · rw [hput]
    rw [htxs] at h
    refine pairwise_replace h ?_ ?_
    · intro b hb
      rwa [← hnonce]
    · intro a ha
      rwa [← hnonce]
  · rw [hput]
    rw [htxs] at h
    exact pairwise_insert h hbefore hafter

/-- What is put is there. -/
theorem mem_put_self (h : Ordered l.txs) : tx ∈ (l.put tx).txs := by
  obtain ⟨before, old, after, -, -, hput⟩ | ⟨before, after, -, -, -, hput⟩ := split_of_put h <;>
    rw [hput] <;> exact List.mem_append_right _ List.mem_cons_self

/-- Only a transaction of the nonce of a new one is replaced by it. -/
theorem mem_put_of_mem (h : Ordered l.txs) (ht : t ∈ l.txs) (hne : t.nonce ≠ tx.nonce) :
    t ∈ (l.put tx).txs := by
  obtain ⟨before, old, after, htxs, hnonce, hput⟩ | ⟨before, after, htxs, -, -, hput⟩ :=
    split_of_put h
  · rw [hput]
    rw [htxs] at ht
    obtain ht | ht := List.mem_append.mp ht
    · exact List.mem_append_left _ ht
    · obtain rfl | ht := List.mem_cons.mp ht
      · exact absurd hnonce hne
      · exact List.mem_append_right _ (List.mem_cons_of_mem _ ht)
  · rw [hput]
    rw [htxs] at ht
    obtain ht | ht := List.mem_append.mp ht
    · exact List.mem_append_left _ ht
    · exact List.mem_append_right _ (List.mem_cons_of_mem _ ht)

/-- A transaction is found by its nonce. -/
theorem get_of_mem (h : Ordered l.txs) (ht : t ∈ l.txs) : l.get t.nonce = some t := by
  have hpartitioned := partitioned_of_ordered h t.nonce
  unfold TxList.get
  split
  · rename_i index hsearch
    obtain ⟨before, x, after, htxs, rfl, heq⟩ :=
      isBinarySearch_binarySearchBy.ok hpartitioned hsearch
    have hnonce : x.nonce = t.nonce := Std.compare_eq_iff_eq.mp heq
    -- two transactions of one nonce are one
    have hsame : t = x := by
      rw [htxs] at ht h
      obtain ⟨-, hafter, hbefore⟩ := List.pairwise_append.mp h
      obtain ht | ht := List.mem_append.mp ht
      · exact absurd hnonce.symm (UInt64.ne_of_lt (hbefore t ht x List.mem_cons_self))
      · obtain rfl | ht := List.mem_cons.mp ht
        · rfl
        · exact absurd hnonce (UInt64.ne_of_lt ((List.pairwise_cons.mp hafter).1 t ht))
    rw [htxs, hsame]
    simp
  · rename_i index hsearch
    obtain ⟨before, after, htxs, -, hbefore, hafter⟩ :=
      isBinarySearch_binarySearchBy.error hpartitioned hsearch
    rw [htxs] at ht
    obtain ht | ht := List.mem_append.mp ht
    · exact absurd (Std.compare_eq_lt.mp (hbefore t ht)) (UInt64.lt_irrefl _)
    · exact absurd (Std.compare_eq_gt.mp (hafter t ht)) (UInt64.lt_irrefl _)

/-! ## Removing nonces -/

/-- A removal does not skip a nonce that is not there: the nonce is there, or there are only
lower ones, or only higher ones. -/
def Exact (txs : List Transaction) (nonce : UInt64) : Prop :=
  (∃ t ∈ txs, t.nonce = nonce) ∨ (∀ t ∈ txs, t.nonce < nonce) ∨ ∀ t ∈ txs, nonce < t.nonce

instance (txs : List Transaction) (nonce : UInt64) : Decidable (Exact txs nonce) :=
  inferInstanceAs (Decidable (_ ∨ _ ∨ _))

/-- Dropping adds nothing. -/
theorem dropThrough_sublist (nonce : UInt64) (txs : List Transaction) :
    (TxList.dropThrough nonce txs).Sublist txs := by
  induction txs with
  | nil => exact .slnil
  | cons t txs ih =>
    unfold TxList.dropThrough
    split
    · exact List.sublist_cons_self t txs
    · exact ih.cons t

/-- The loop stops at the nonce, if it is there. -/
theorem mem_dropThrough (h : Ordered txs) (hmem : ∃ u ∈ txs, u.nonce = nonce) (ht : t ∈ txs)
    (hlt : nonce < t.nonce) :
    t ∈ TxList.dropThrough nonce txs := by
  induction txs with
  | nil => cases ht
  | cons u txs ih =>
    obtain ⟨hu, hrest⟩ := List.pairwise_cons.mp h
    unfold TxList.dropThrough
    split
    · rename_i hnonce
      obtain rfl | ht := List.mem_cons.mp ht
      · rw [beq_iff_eq.mp hnonce] at hlt
        exact absurd hlt (UInt64.lt_irrefl _)
      · exact ht
    · rename_i hnonce
      obtain ⟨v, hv, rfl⟩ := hmem
      obtain rfl | hv' := List.mem_cons.mp hv
      · exact absurd (beq_self_eq_true _) hnonce
      · obtain rfl | ht' := List.mem_cons.mp ht
        · exact absurd (UInt64.lt_trans hlt (hu v hv')) (UInt64.lt_irrefl _)
        · exact ih hrest ⟨v, hv', rfl⟩ ht'

/-- An exact removal leaves the transactions of higher nonces. -/
theorem mem_forward (h : Ordered l.txs) (hexact : Exact l.txs nonce) (ht : t ∈ l.txs)
    (hlt : nonce < t.nonce) :
    t ∈ (l.forward nonce).2.txs := by
  unfold TxList.forward
  split
  · exact ht
  · rename_i hhead
    obtain hmem | hlower | hhigher := hexact
    · exact mem_dropThrough h hmem ht hlt
    · exact absurd (UInt64.lt_trans hlt (hlower t ht)) (UInt64.lt_irrefl _)
    · refine absurd ?_ hhead
      cases htxs : l.txs with
      | nil =>
        rw [htxs] at ht
        cases ht
      | cons first =>
        have hfirst := hhigher first (by rw [htxs]; exact List.mem_cons_self)
        simpa using hfirst

/-- `forward` adds nothing. -/
theorem forward_sublist (l : TxList) (nonce : UInt64) : (l.forward nonce).2.txs.Sublist l.txs := by
  unfold TxList.forward
  split
  · exact List.Sublist.refl _
  · exact dropThrough_sublist nonce l.txs

/-- What a removal leaves has higher nonces. -/
theorem lt_of_mem_forward (h : Ordered l.txs) (ht : t ∈ (l.forward nonce).2.txs) :
    nonce < t.nonce := by
  have hdrop : ∀ txs, Ordered txs → t ∈ TxList.dropThrough nonce txs → nonce < t.nonce := by
    intro txs htxs hmem
    induction txs with
    | nil => cases hmem
    | cons u txs ih =>
      obtain ⟨hu, hrest⟩ := List.pairwise_cons.mp htxs
      unfold TxList.dropThrough at hmem
      split at hmem
      · rename_i hnonce
        rw [← beq_iff_eq.mp hnonce]
        exact hu t hmem
      · exact ih hrest hmem
  unfold TxList.forward at ht
  split at ht
  · rename_i hhead
    cases htxs : l.txs with
    | nil =>
      rw [htxs] at ht
      cases ht
    | cons first =>
      rw [htxs] at ht hhead h
      have hfirst : nonce < first.nonce := by simpa using hhead
      obtain rfl | ht := List.mem_cons.mp ht
      · exact hfirst
      · exact UInt64.lt_trans hfirst ((List.pairwise_cons.mp h).1 t ht)
  · exact hdrop l.txs h ht

/-- A removal that was exact is so after another one. -/
theorem exact_forward {later : UInt64} (h : Ordered l.txs) (hexact : Exact l.txs nonce)
    (hlater : Exact l.txs later) :
    Exact (l.forward nonce).2.txs later := by
  have hsub := (forward_sublist l nonce).subset
  obtain ⟨t, ht, heq⟩ | hlower | hhigher := hlater
  · by_cases hlt : nonce < t.nonce
    · exact .inl ⟨t, mem_forward h hexact ht hlt, heq⟩
    · refine .inr (.inr ?_)
      intro u hu
      rw [← heq]
      exact UInt64.lt_of_le_of_lt (UInt64.not_lt.mp hlt) (lt_of_mem_forward h hu)
  · exact .inr (.inl fun u hu => hlower u (hsub hu))
  · exact .inr (.inr fun u hu => hhigher u (hsub hu))

/-! ## The pool -/

/-- The transactions of a sender that are in the pool. -/
def senderTxs (pool : TxPool) (sender : Address) : List Transaction :=
  match pool.poolData.lookup sender with
  | some l => l.txs
  | none => []

/-- A transaction is in the pool, with those of its sender. -/
def Pooled (pool : TxPool) (t : Transaction) : Prop := t ∈ senderTxs pool t.sender

instance (pool : TxPool) (t : Transaction) : Decidable (Pooled pool t) :=
  inferInstanceAs (Decidable (t ∈ _))

/-- The transactions of every sender are in order. -/
def OrderedPool (pool : TxPool) : Prop := ∀ sender, Ordered (senderTxs pool sender)

/-- The transactions of a list. -/
theorem senderTxs_of_lookup (h : pool.poolData.lookup sender = some l) :
    senderTxs pool sender = l.txs := by
  rw [senderTxs, h]

/-- A sender without a list has none. -/
theorem senderTxs_of_none (h : pool.poolData.lookup sender = none) :
    senderTxs pool sender = [] := by
  rw [senderTxs, h]

/-- The active list does not matter. -/
theorem senderTxs_congr (h : pool'.poolData = pool.poolData) (sender : Address) :
    senderTxs pool' sender = senderTxs pool sender := by
  rw [senderTxs, senderTxs, h]

/-- Inserting changes one sender. -/
theorem senderTxs_insert (pool : TxPool) (active : Active) (sender other : Address) (l : TxList) :
    senderTxs { poolData := pool.poolData.insert sender l, activeTxs := active } other =
      if other = sender then l.txs else senderTxs pool other := by
  split
  · rename_i heq
    rw [heq]
    exact senderTxs_of_lookup (AList.lookup_insert _)
  · rename_i hne
    rw [senderTxs, AList.lookup_insert_ne hne]
    rfl

/-- The pool after some transactions of a sender were replaced by others. -/
def Updates (pool pool' : TxPool) (sender : Address) (txs : List Transaction) : Prop :=
  ∀ other, senderTxs pool' other = if other = sender then txs else senderTxs pool other

/-- An ordered update keeps the order. -/
theorem Updates.orderedPool (h : Updates pool pool' sender txs) (hpool : OrderedPool pool)
    (htxs : Ordered txs) :
    OrderedPool pool' := by
  intro other
  rw [h other]
  split
  · exact htxs
  · exact hpool other

/-- What `remove` does to the transactions of its sender. -/
theorem updates_remove (h : pool.remove sender nonce = some pool') :
    Updates pool pool' sender
      (TxList.forward { sender := sender, txs := senderTxs pool sender } nonce).2.txs := by
  unfold TxPool.remove at h
  dsimp only at h
  obtain ⟨active, -, rfl⟩ := Option.map_eq_some_iff.mp h
  intro other
  split
  · rename_i hnone
    have htxs := senderTxs_of_none hnone
    split
    · rename_i heq
      rw [heq, htxs]
      exact htxs
    · rfl
  · rename_i l hl
    rw [senderTxs_of_lookup hl, txs_forward]
    split
    · rename_i l' hl'
      have hempty : (l.forward nonce).2.txs = [] := by
        rw [hl']
        unfold TxList.forward at hl'
        split at hl'
        · cases hl'
        · obtain ⟨hisEmpty, rfl⟩ := Prod.mk.inj hl'
          exact List.isEmpty_iff.mp hisEmpty
      split
      · rename_i heq
        rw [hempty, heq]
        exact senderTxs_of_none (AList.lookup_erase _ _)
      · rename_i hne
        rw [senderTxs, AList.lookup_erase_ne hne]
        rfl
    · rename_i l' hl'
      rw [senderTxs_insert, hl']

/-- What `handleNewTx` does to the lists of the pool. -/
theorem poolData_handleNewTx
    (h : pool.handleNewTx tx getNonce baseFee syncing simSender = some (pool', requests)) :
    pool'.poolData = pool.poolData ∨
      (∃ l, pool.poolData.lookup tx.sender = some l ∧
        l.getEffectivePriceForNonce tx.nonce baseFee ≤ tx.tx.effectiveGasPrice baseFee ∧
        pool'.poolData = pool.poolData.insert tx.sender (l.put tx)) ∨
      (pool.poolData.lookup tx.sender = none ∧
        pool'.poolData = pool.poolData.insert tx.sender (.fromTx tx)) := by
  unfold TxPool.handleNewTx at h
  dsimp only at h
  split at h
  · obtain ⟨rfl, -⟩ := Prod.mk.inj (Option.some.inj h)
    exact .inl rfl
  · split at h
    · rename_i l hl
      split at h
      · obtain ⟨rfl, -⟩ := Prod.mk.inj (Option.some.inj h)
        exact .inl rfl
      · rename_i hprice
        refine .inr (.inl ⟨l, hl, BitVec.not_lt.mp hprice, ?_⟩)
        -- what is done with the active lists depends on the sync state, the nonce and the fee
        split at h
        · obtain ⟨rfl, -⟩ := Prod.mk.inj (Option.some.inj h)
          rfl
        · split at h
          · obtain ⟨active, -, heq⟩ := Option.map_eq_some_iff.mp h
            obtain ⟨rfl, -⟩ := Prod.mk.inj heq
            rfl
          · split at h
            · obtain ⟨active, -, heq⟩ := Option.map_eq_some_iff.mp h
              obtain ⟨rfl, -⟩ := Prod.mk.inj heq
              rfl
            · obtain ⟨rfl, -⟩ := Prod.mk.inj (Option.some.inj h)
              rfl
    · rename_i hnone
      refine .inr (.inr ⟨hnone, ?_⟩)
      split at h
      · obtain ⟨active, -, heq⟩ := Option.map_eq_some_iff.mp h
        obtain ⟨rfl, -⟩ := Prod.mk.inj heq
        rfl
      · obtain ⟨rfl, -⟩ := Prod.mk.inj (Option.some.inj h)
        rfl

/-- What a new transaction does to the pool: nothing, or it is put among those of its sender
and pays no less than the one of its nonce. -/
inductive TakesNew (pool : TxPool) (tx : Transaction) (baseFee : UInt64) (pool' : TxPool) : Prop
  | rejected (hpool : ∀ sender, senderTxs pool' sender = senderTxs pool sender)
  | accepted (hprice : ∀ t ∈ senderTxs pool tx.sender, t.nonce = tx.nonce →
        t.tx.effectiveGasPrice baseFee ≤ tx.tx.effectiveGasPrice baseFee)
      (hupdates : Updates pool pool' tx.sender
        (TxList.put { sender := tx.sender, txs := senderTxs pool tx.sender } tx).txs)

/-- Inserting a list is an update. -/
theorem updates_of_insert (h : pool'.poolData = pool.poolData.insert sender l) :
    Updates pool pool' sender l.txs := by
  intro other
  rw [← senderTxs_insert pool pool'.activeTxs]
  exact senderTxs_congr h other

/-- What the arrival of a transaction does. -/
theorem takesNew_of_handleNewTx (hordered : OrderedPool pool)
    (h : pool.handleNewTx tx getNonce baseFee syncing simSender = some (pool', requests)) :
    TakesNew pool tx baseFee pool' := by
  obtain hsame | ⟨l, hl, hprice, hdata⟩ | ⟨hnone, hdata⟩ := poolData_handleNewTx h
  · exact .rejected (senderTxs_congr hsame)
  · have htxs := senderTxs_of_lookup hl
    have hl' : Ordered l.txs := htxs ▸ hordered tx.sender
    refine .accepted (fun t ht hnonce => ?_) ?_
    · rwa [TxList.getEffectivePriceForNonce, ← hnonce, get_of_mem hl' (htxs ▸ ht)] at hprice
    · rw [htxs, txs_put]
      exact updates_of_insert hdata
  · have htxs := senderTxs_of_none hnone
    refine .accepted (by simp [htxs]) ?_
    rw [htxs]
    exact updates_of_insert hdata

/-! ## Sequences of operations -/

inductive PoolOp where
  | handleNewTx (tx : Transaction) (getNonce : Address → UInt64) (baseFee : UInt64)
      (syncing simSender : Bool)
  | handleSimulated (tx : SimulatedTx)
  | remove (sender : Address) (nonce : UInt64)
  | removeMinedTxs (mined : List (Address × UInt64))
  | handleNewBlock (mined : List (Address × UInt64)) (baseFee : UInt64)
      (getNonce : Address → UInt64) (syncing simSender : Bool)

def poolStep (pool : TxPool) : PoolOp → Option TxPool
  | .handleNewTx tx getNonce baseFee syncing simSender =>
    (pool.handleNewTx tx getNonce baseFee syncing simSender).map Prod.fst
  | .handleSimulated tx => pool.handleSimulated tx
  | .remove sender nonce => pool.remove sender nonce
  | .removeMinedTxs mined => pool.removeMinedTxs mined
  | .handleNewBlock mined baseFee getNonce syncing simSender =>
    (pool.handleNewBlock mined baseFee getNonce syncing simSender).map Prod.fst

/-- The removals that an operation makes. -/
def removals : PoolOp → List (Address × UInt64)
  | .remove sender nonce => [(sender, nonce)]
  | .removeMinedTxs mined => mined
  | .handleNewBlock mined _ _ _ _ => mined
  | _ => []

/-- One removal of a mined transaction. -/
def removeStep (pool : TxPool) (removal : Address × UInt64) : Option TxPool :=
  pool.remove removal.1 removal.2

/-- A removal is exact for the transactions that the pool has of the sender. -/
def ExactIn (pool : TxPool) (removal : Address × UInt64) : Prop :=
  Exact (senderTxs pool removal.1) removal.2

instance (pool : TxPool) (removal : Address × UInt64) : Decidable (ExactIn pool removal) :=
  inferInstanceAs (Decidable (Exact _ _))

/-- Every removal is exact for the transactions that are in the pool when it is made; those of
mined transactions are made one after the other. -/
def RemovesExactly (pool : TxPool) : PoolOp → Prop
  | .remove sender nonce => ExactIn pool (sender, nonce)
  | .removeMinedTxs mined => Along removeStep ExactIn pool mined
  | .handleNewBlock mined _ _ _ _ =>
    Along removeStep ExactIn { pool with activeTxs := .empty } mined
  | _ => True

instance (pool : TxPool) : (op : PoolOp) → Decidable (RemovesExactly pool op)
  | .remove sender nonce => inferInstanceAs (Decidable (ExactIn pool (sender, nonce)))
  | .removeMinedTxs mined => inferInstanceAs (Decidable (Along removeStep ExactIn pool mined))
  | .handleNewBlock mined _ _ _ _ =>
    inferInstanceAs (Decidable (Along removeStep ExactIn { pool with activeTxs := .empty } mined))
  | .handleNewTx _ _ _ _ _ => isTrue trivial
  | .handleSimulated _ => isTrue trivial

/-- A transaction of the same sender and nonce is accepted that pays no less. -/
def Replaces (t : Transaction) (op : PoolOp) (pool' : TxPool) : Prop :=
  ∃ tx getNonce baseFee syncing simSender, op = .handleNewTx tx getNonce baseFee syncing simSender ∧
    tx.sender = t.sender ∧ tx.nonce = t.nonce ∧
    t.tx.effectiveGasPrice baseFee ≤ tx.tx.effectiveGasPrice baseFee ∧ Pooled pool' tx

/-- A nonce of the sender is removed that is not lower. -/
def Removes (t : Transaction) (op : PoolOp) : Prop :=
  ∃ nonce, (t.sender, nonce) ∈ removals op ∧ t.nonce ≤ nonce

/-- A removal keeps the order. -/
theorem orderedPool_remove (hpool : OrderedPool pool) (h : pool.remove sender nonce = some pool') :
    OrderedPool pool' :=
  (updates_remove h).orderedPool hpool ((hpool sender).sublist (forward_sublist _ nonce))

/-- Removing what was mined keeps the order. -/
theorem orderedPool_removeMinedTxs (hpool : OrderedPool pool)
    (h : pool.removeMinedTxs mined = some pool') :
    OrderedPool pool' :=
  TxPool.removeMinedTxs_induction (fun _ _ _ _ _ hpool => orderedPool_remove hpool) hpool h

/-- An exact removal only takes transactions whose nonce is not higher. -/
theorem stays_of_remove (hpool : OrderedPool pool) (hexact : Exact (senderTxs pool sender) nonce)
    (h : pool.remove sender nonce = some pool') (ht : Pooled pool t) :
    Pooled pool' t ∨ (t.sender = sender ∧ t.nonce ≤ nonce) := by
  unfold Pooled at ht ⊢
  rw [updates_remove h t.sender]
  split
  · rename_i heq
    rw [heq] at ht
    by_cases hlt : nonce < t.nonce
    · exact .inl (mem_forward (hpool sender) hexact ht hlt)
    · exact .inr ⟨heq, UInt64.not_lt.mp hlt⟩
  · exact .inl ht

/-- An exact removal keeps others exact. -/
theorem exact_remove {other : Address} {later : UInt64} (hpool : OrderedPool pool)
    (hexact : Exact (senderTxs pool sender) nonce) (h : pool.remove sender nonce = some pool')
    (hlater : Exact (senderTxs pool other) later) :
    Exact (senderTxs pool' other) later := by
  rw [updates_remove h other]
  split
  · rename_i heq
    rw [heq] at hlater
    exact exact_forward (hpool sender) hexact hlater
  · exact hlater

/-- Removals one after the other are exact if they are so at the start. -/
theorem along_exactIn (hpool : OrderedPool pool) (hexact : ∀ r ∈ mined, ExactIn pool r) :
    Along removeStep ExactIn pool mined := by
  induction mined generalizing pool with
  | nil => exact trivial
  | cons first rest ih =>
    have hfirst := hexact first List.mem_cons_self
    refine ⟨hfirst, fun pool₁ hremove => ih (orderedPool_remove hpool hremove) fun r hr => ?_⟩
    exact exact_remove hpool hfirst hremove (hexact r (List.mem_cons_of_mem _ hr))

/-- Exact removals take only what is mined. -/
theorem stays_of_removals (hpool : OrderedPool pool)
    (hexact : Along removeStep ExactIn pool mined) (h : pool.removeMinedTxs mined = some pool')
    (ht : Pooled pool t) :
    Pooled pool' t ∨ ∃ nonce, (t.sender, nonce) ∈ mined ∧ t.nonce ≤ nonce := by
  induction mined generalizing pool with
  | nil =>
    obtain rfl := Option.some.inj h
    exact .inl ht
  | cons first rest ih =>
    obtain ⟨sender, nonce⟩ := first
    rw [TxPool.removeMinedTxs] at h
    split at h
    · cases h
    · rename_i pool₁ hremove
      obtain ht₁ | ⟨rfl, hle⟩ := stays_of_remove hpool hexact.1 hremove ht
      · obtain ht' | ⟨nonce', hmem, hle⟩ :=
          ih (orderedPool_remove hpool hremove) (hexact.2 pool₁ hremove) h ht₁
        · exact .inl ht'
        · exact .inr ⟨nonce', List.mem_cons_of_mem _ hmem, hle⟩
      · exact .inr ⟨nonce, List.mem_cons_self, hle⟩

/-- A new block removes what was mined, and fills the list of the senders that can be mined anew. -/
theorem removals_of_handleNewBlock
    (h : pool.handleNewBlock mined baseFee getNonce syncing simSender = some (pool', requests)) :
    ∃ pool₁, ({ pool with activeTxs := .empty } : TxPool).removeMinedTxs mined = some pool₁ ∧
      pool'.poolData = pool₁.poolData := by
  unfold TxPool.handleNewBlock at h
  split at h
  · cases h
  · rename_i pool₁ hmined
    refine ⟨pool₁, hmined, ?_⟩
    split at h
    · obtain ⟨rfl, -⟩ := Prod.mk.inj (Option.some.inj h)
      rfl
    · obtain ⟨⟨active, requests₁⟩, -, heq⟩ := Option.map_eq_some_iff.mp h
      obtain ⟨rfl, -⟩ := Prod.mk.inj heq
      rfl

/-- A simulation does not touch the lists. -/
theorem poolData_handleSimulated {tx : SimulatedTx} (h : pool.handleSimulated tx = some pool') :
    pool'.poolData = pool.poolData := by
  unfold TxPool.handleSimulated at h
  split at h
  · rw [Option.some.inj h]
  · obtain ⟨active, -, rfl⟩ := Option.map_eq_some_iff.mp h
    rfl

/-- The active list does not matter. -/
theorem orderedPool_congr (h : pool'.poolData = pool.poolData) (hpool : OrderedPool pool) :
    OrderedPool pool' := by
  intro sender
  rw [senderTxs_congr h]
  exact hpool sender

/-- Every operation keeps the order. -/
theorem orderedPool_step {op : PoolOp} (hpool : OrderedPool pool)
    (h : poolStep pool op = some pool') : OrderedPool pool' := by
  cases op with
  | handleNewTx tx =>
    obtain ⟨⟨pool₁, requests⟩, hnew, rfl⟩ := Option.map_eq_some_iff.mp h
    cases takesNew_of_handleNewTx hpool hnew with
    | rejected hsame =>
      intro sender
      rw [hsame sender]
      exact hpool sender
    | accepted hprice hupdates => exact hupdates.orderedPool hpool (ordered_put (hpool tx.sender))
  | handleSimulated => exact orderedPool_congr (poolData_handleSimulated h) hpool
  | remove => exact orderedPool_remove hpool h
  | removeMinedTxs => exact orderedPool_removeMinedTxs hpool h
  | handleNewBlock =>
    obtain ⟨⟨pool₁, requests⟩, hblock, rfl⟩ := Option.map_eq_some_iff.mp h
    obtain ⟨pool₂, hmined, hdata⟩ := removals_of_handleNewBlock hblock
    have hcleared : OrderedPool { pool with activeTxs := .empty } := hpool
    exact orderedPool_congr hdata (orderedPool_removeMinedTxs hcleared hmined)

/-- A new block takes only what is mined. -/
theorem stays_of_handleNewBlock (hpool : OrderedPool pool)
    (hexact : Along removeStep ExactIn { pool with activeTxs := .empty } mined)
    (h : pool.handleNewBlock mined baseFee getNonce syncing simSender = some (pool', requests))
    (ht : Pooled pool t) :
    Pooled pool' t ∨ ∃ nonce, (t.sender, nonce) ∈ mined ∧ t.nonce ≤ nonce := by
  obtain ⟨pool₁, hmined, hdata⟩ := removals_of_handleNewBlock h
  have hcleared : OrderedPool { pool with activeTxs := .empty } := hpool
  have ht₁ : Pooled { pool with activeTxs := .empty } t := ht
  obtain ht' | hremoved := stays_of_removals hcleared hexact hmined ht₁
  · refine .inl ?_
    rw [Pooled, senderTxs_congr hdata]
    exact ht'
  · exact .inr hremoved

/-- What one operation does to a transaction of the pool. -/
theorem stays_of_step {op : PoolOp} (hexact : RemovesExactly pool op) (hpool : OrderedPool pool)
    (ht : Pooled pool t) (h : poolStep pool op = some pool') :
    Pooled pool' t ∨ Replaces t op pool' ∨ Removes t op := by
  cases op with
  | handleNewTx tx getNonce baseFee syncing simSender =>
    obtain ⟨⟨pool₁, requests⟩, hnew, rfl⟩ := Option.map_eq_some_iff.mp h
    cases takesNew_of_handleNewTx hpool hnew with
    | rejected hsame =>
      refine .inl ?_
      rw [Pooled, hsame]
      exact ht
    | accepted hprice hupdates =>
      unfold Pooled at ht ⊢
      by_cases hsender : t.sender = tx.sender
      · rw [hsender] at ht
        by_cases hnonce : t.nonce = tx.nonce
        · refine .inr (.inl ⟨tx, getNonce, baseFee, syncing, simSender, rfl, hsender.symm,
            hnonce.symm, hprice t ht hnonce, ?_⟩)
          rw [Pooled, hupdates, if_pos rfl]
          exact mem_put_self (hpool tx.sender)
        · rw [hupdates, if_pos hsender]
          exact .inl (mem_put_of_mem (hpool tx.sender) ht hnonce)
      · rw [hupdates, if_neg hsender]
        exact .inl ht
  | handleSimulated =>
    refine .inl ?_
    rw [Pooled, senderTxs_congr (poolData_handleSimulated h)]
    exact ht
  | remove sender nonce =>
    obtain ht' | ⟨rfl, hle⟩ := stays_of_remove hpool hexact h ht
    · exact .inl ht'
    · exact .inr (.inr ⟨nonce, List.mem_cons_self, hle⟩)
  | removeMinedTxs =>
    obtain ht' | hremoved := stays_of_removals hpool hexact h ht
    · exact .inl ht'
    · exact .inr (.inr hremoved)
  | handleNewBlock =>
    obtain ⟨⟨pool₁, requests⟩, hblock, rfl⟩ := Option.map_eq_some_iff.mp h
    obtain ht' | hremoved := stays_of_handleNewBlock hpool hexact hblock ht
    · exact .inl ht'
    · exact .inr (.inr hremoved)

/-- A transaction of the pool stays there until one of its nonce replaces it that pays no less, or a
nonce is removed that is not lower, in every sequence of operations all of whose removals are exact.
SRCLINE: transaction/pool.rs:28-161, transaction/tx_list.rs:27-57 -/
theorem pooled_until {ops later : List PoolOp} {pool pool' : TxPool} {t : Transaction}
    (hrun : runSteps poolStep .empty ops = some pool) (ht : Pooled pool t)
    (hexact : Along poolStep RemovesExactly pool later)
    (hlater : runSteps poolStep pool later = some pool') :
    Pooled pool' t ∨
      Occurs poolStep (fun _ op after => Replaces t op after ∨ Removes t op) pool later := by
  have hpool : OrderedPool pool := by
    refine runSteps_induction (I := OrderedPool) ?_ ?_ hrun
    · intro pool op pool' hpool hstep
      exact orderedPool_step hpool hstep
    · intro sender
      exact List.Pairwise.nil
  have hstays := Along.until_occurs (I := fun pool => OrderedPool pool ∧ Pooled pool t)
    (E := fun _ op after => Replaces t op after ∨ Removes t op) ?_ hexact ⟨hpool, ht⟩ hlater
  · exact hstays.imp_left And.right
  · rintro pool op pool' hexact ⟨hpool, ht⟩ hstep
    exact (stays_of_step hexact hpool ht hstep).imp_left fun ht' =>
      ⟨orderedPool_step hpool hstep, ht'⟩

/-- A transaction of the given nonce arrives. -/
def arrives (nonce : UInt8) : PoolOp :=
  .handleNewTx (plainRawTx [nonce]) (fun _ => 1) 1 false false

/-- Two nonces are mined, of which the second is missing in the pool before the first is removed. -/
def mines : List PoolOp := [.removeMinedTxs [(7, 2), (7, 3)]]

/-- A transaction stays while lower ones are mined. -/
theorem pooled_until_mined :
    ∃ pool pool', runSteps poolStep .empty [arrives 1, arrives 2, arrives 5] = some pool ∧
      Pooled pool (plainRawTx [5]) ∧ runSteps poolStep pool mines = some pool' ∧
      (Pooled pool' (plainRawTx [5]) ∨ Occurs poolStep (fun _ op after =>
        Replaces (plainRawTx [5]) op after ∨ Removes (plainRawTx [5]) op) pool mines) := by
  have hview : ((runSteps poolStep .empty [arrives 1, arrives 2, arrives 5]).bind fun pool =>
      (runSteps poolStep pool mines).map fun _ =>
        (decide (Pooled pool (plainRawTx [5])),
          decide (Along poolStep RemovesExactly pool mines))) = some (true, true) := by
    decide +kernel
  obtain ⟨pool, hrun, hview⟩ := Option.bind_eq_some_iff.mp hview
  obtain ⟨pool', hlater, heq⟩ := Option.map_eq_some_iff.mp hview
  obtain ⟨hpooled, hexact⟩ := Prod.mk.inj heq
  have ht : Pooled pool (plainRawTx [5]) := of_decide_eq_true hpooled
  exact ⟨pool, pool', hrun, ht, hlater, pooled_until hrun ht (of_decide_eq_true hexact) hlater⟩

/-- The removal of a nonce that is not there takes the transactions of higher nonces too.
SRCLINE: transaction/tx_list.rs:51-55 -/
theorem pooled_lost :
    ∃ pool pool', runSteps poolStep .empty [arrives 1, arrives 2, arrives 5] = some pool ∧
      Pooled pool (plainRawTx [5]) ∧ poolStep pool (.remove 7 3) = some pool' ∧
      ¬ Pooled pool' (plainRawTx [5]) ∧ ¬ Replaces (plainRawTx [5]) (.remove 7 3) pool' ∧
      ¬ Removes (plainRawTx [5]) (.remove 7 3) := by
  have hview : ((runSteps poolStep .empty [arrives 1, arrives 2, arrives 5]).bind fun pool =>
      (poolStep pool (.remove 7 3)).map fun pool' =>
        (decide (Pooled pool (plainRawTx [5])), decide (Pooled pool' (plainRawTx [5])))) =
        some (true, false) := by
    decide +kernel
  obtain ⟨pool, hrun, hview⟩ := Option.bind_eq_some_iff.mp hview
  obtain ⟨pool', hstep, heq⟩ := Option.map_eq_some_iff.mp hview
  obtain ⟨hpooled, hlost⟩ := Prod.mk.inj heq
  refine ⟨pool, pool', hrun, of_decide_eq_true hpooled, hstep, of_decide_eq_false hlost, ?_, ?_⟩
  · rintro ⟨tx, getNonce, baseFee, syncing, simSender, hop, -⟩
    cases hop
  · rintro ⟨nonce, hmem, hle⟩
    obtain ⟨-, rfl⟩ := Prod.mk.inj (List.mem_singleton.mp hmem)
    exact absurd hle (by decide)

end BasedOp.Analysis.PoolRetention
