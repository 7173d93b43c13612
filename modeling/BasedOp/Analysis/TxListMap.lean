import BasedOp.Analysis.ReadySenders

/-!
# The list of a sender as a map

`put` and `pop_front` keep the transactions of a sender in the order of their nonces, and the
list then stands for a map: a transaction is put under its nonce, and the one of the least nonce
is taken out (`txList_represents`). What `ready` takes from the front of such a list are the
transactions of consecutive nonces from the given one on; `nonce_ready` runs the same loop to
tell whether it gets to a nonce. So the pool never asks for a ready list that is not there.
-/

set_option autoImplicit false

namespace BasedOp.Analysis.TxListMap

open BasedOp.Computation Model Model.Gateway
open PoolRetention ActiveIndex ReadySenders

variable {l : TxList} {t : Transaction} {nonce baseFee : UInt64}

/-! ## Putting and taking -/

/-- `put` replaces its nonce. -/
theorem mem_put_iff {tx : Transaction} (h : Ordered l.txs) :
    t ∈ (l.put tx).txs ↔ t = tx ∨ (t ∈ l.txs ∧ t.nonce ≠ tx.nonce) := by
  constructor
  · intro ht
    by_cases hnonce : t.nonce = tx.nonce
    · -- both are found under the nonce
      have hmem : tx ∈ (l.put tx).txs := mem_put_self h
      have hself := get_of_mem (ordered_put h) hmem
      have hother := get_of_mem (ordered_put h) ht
      rw [hnonce, hself] at hother
      exact .inl (Option.some.inj hother).symm
    · refine .inr ⟨?_, hnonce⟩
      obtain ⟨before, old, after, htxs, -, hput⟩ | ⟨before, after, htxs, -, -, hput⟩ :=
        @split_of_put l tx h
      -- either way a transaction of another nonce is in the part before or in the part after
      all_goals
        have hne : t ≠ tx := fun heq => hnonce (congrArg Transaction.nonce heq)
        rw [hput, List.mem_append, List.mem_cons, or_iff_right hne] at ht
        rw [htxs, List.mem_append]
      · exact ht.imp_right (List.mem_cons_of_mem old)
      · exact ht
  · rintro (rfl | ⟨ht, hnonce⟩)
    · exact mem_put_self h
    · exact mem_put_of_mem h ht hnonce

/-- What is found under a nonce is there, and has it. -/
theorem get_eq_some_iff (h : Ordered l.txs) :
    l.get nonce = some t ↔ t ∈ l.txs ∧ t.nonce = nonce := by
  constructor
  · intro hget
    unfold TxList.get at hget
    split at hget
    · rename_i index hsearch
      obtain ⟨before, x, after, htxs, rfl, heq⟩ :=
        isBinarySearch_binarySearchBy.ok (partitioned_of_ordered h nonce) hsearch
      rw [htxs, List.getElem?_append_right (Nat.le_refl _), Nat.sub_self,
        List.getElem?_cons_zero] at hget
      obtain rfl := Option.some.inj hget
      rw [htxs]
      exact ⟨List.mem_append_right _ List.mem_cons_self, Std.compare_eq_iff_eq.mp heq⟩
    · cases hget
  · rintro ⟨ht, rfl⟩
    exact get_of_mem h ht

/-- `contains` is a lookup. -/
theorem contains_eq (h : Ordered l.txs) (nonce : UInt64) :
    l.contains nonce = (l.get nonce).isSome := by
  unfold TxList.contains TxList.get
  cases hsearch : l.search nonce with
  | ok =>
    obtain ⟨before, x, after, htxs, rfl, -⟩ :=
      isBinarySearch_binarySearchBy.ok (partitioned_of_ordered h nonce) hsearch
    dsimp only
    rw [htxs, List.getElem?_append_right (Nat.le_refl _), Nat.sub_self, List.getElem?_cons_zero]
    rfl
  | error => rfl

/-- An operation on the list of a sender. -/
inductive ListOp where
  | put (tx : Transaction)
  | popFront

def listStep (l : TxList) : ListOp → TxList
  | .put tx => l.put tx
  | .popFront => l.popFront.2

/-- What an operation does to the map from nonces to transactions. -/
noncomputable def mapStep (m : UInt64 → Option Transaction) :
    ListOp → UInt64 → Option Transaction
  | .put tx => Function.update m tx.nonce (some tx)
  | .popFront => eraseLeast m

variable {m : UInt64 → Option Transaction} {txs : List Transaction}

/-- One operation on list and map. -/
theorem represents_step (h : Represents Transaction.nonce l.txs m) (op : ListOp) :
    Represents Transaction.nonce (listStep l op).txs (mapStep m op) := by
  cases op with
  | put => exact h.update (ordered_put h.sorted) fun _ => mem_put_iff h.sorted
  | popFront => exact h.tail

/-- All operations. -/
theorem represents_foldl (h : Represents Transaction.nonce l.txs m) (ops : List ListOp) :
    Represents Transaction.nonce (ops.foldl listStep l).txs (ops.foldl mapStep m) := by
  induction ops generalizing l m with
  | nil => exact h
  | cons op ops ih => exact ih (represents_step h op)

/-- After any operations the nonces of a list are in order, and what is found in it under a nonce
is what the map has there.
SRCLINE: transaction/tx_list.rs:27-42,129-134,164-170 -/
theorem txList_represents (sender : Address) (ops : List ListOp) :
    Ordered (ops.foldl listStep (.emptyForSender sender)).txs ∧
      ∀ nonce,
        (ops.foldl listStep (.emptyForSender sender)).get nonce =
          ops.foldl mapStep (fun _ => none) nonce ∧
        (ops.foldl listStep (.emptyForSender sender)).contains nonce =
          (ops.foldl mapStep (fun _ => none) nonce).isSome := by
  have h := represents_foldl (l := .emptyForSender sender) Represents.nil ops
  have hget : ∀ nonce, (ops.foldl listStep (.emptyForSender sender)).get nonce =
      ops.foldl mapStep (fun _ => none) nonce := by
    intro nonce
    apply Option.ext
    intro t
    rw [get_eq_some_iff h.sorted]
    exact h.lookup.symm
  refine ⟨h.sorted, fun nonce => ⟨hget nonce, ?_⟩⟩
  rw [contains_eq h.sorted, hget]

/-! ## What is ready -/

/-- The loop of `nonce_ready` gets to a nonce when that of `ready` takes a transaction of it. -/
theorem nonceReadyFrom_iff {target : UInt64} :
    TxList.nonceReadyFrom baseFee target nonce txs = true ↔
      ∃ t ∈ TxList.readyTxs baseFee nonce txs, t.nonce = target := by
  induction txs generalizing nonce with
  | nil => simp [TxList.nonceReadyFrom, TxList.readyTxs]
  | cons first rest ih =>
    rw [TxList.nonceReadyFrom, TxList.readyTxs]
    by_cases hstop : first.nonce ≠ nonce ∨ (!first.validForBlock baseFee) = true
    · rw [if_pos hstop, if_pos hstop]
      simp
    · have hfirst : first.nonce = nonce := by
        by_contra hne
        exact hstop (.inl hne)
      rw [if_neg hstop, if_neg hstop, List.exists_mem_cons_iff, hfirst]
      by_cases htarget : nonce = target
      · rw [if_pos (beq_iff_eq.mpr htarget)]
        exact iff_of_true rfl (.inl htarget)
      · rw [if_neg fun h => htarget (beq_iff_eq.mp h), ih]
        constructor
        · exact .inr
        · rintro (h | h)
          · exact absurd h htarget
          · exact h

/-- What the loop takes has consecutive nonces and pays the base fee. The list is in
order, so none of them is the greatest there is but the last. -/
theorem readyTxs_getElem? (h : Ordered txs) {i : ℕ}
    (ht : (TxList.readyTxs baseFee nonce txs)[i]? = some t) :
    t.nonce.toNat = nonce.toNat + i ∧ t.validForBlock baseFee = true := by
  induction txs generalizing nonce i with
  | nil => cases ht
  | cons first rest ih =>
    obtain ⟨hlower, hrest⟩ := List.pairwise_cons.mp h
    rw [TxList.readyTxs] at ht
    by_cases hstop : first.nonce ≠ nonce ∨ (!first.validForBlock baseFee) = true
    · rw [if_pos hstop] at ht
      cases ht
    · rw [if_neg hstop] at ht
      obtain ⟨hfirst, hvalid⟩ : first.nonce = nonce ∧ first.validForBlock baseFee = true := by
        simpa using hstop
      cases i with
      | zero =>
        rw [List.getElem?_cons_zero] at ht
        obtain rfl := Option.some.inj ht
        exact ⟨by rw [hfirst, Nat.add_zero], hvalid⟩
      | succ =>
        rw [List.getElem?_cons_succ] at ht
        obtain ⟨hnonce, hvalid⟩ := ih hrest ht
        refine ⟨?_, hvalid⟩
        -- a greater nonce follows, so the next one does not overflow
        have hmem := (readyTxs_sublist baseFee (nonce + 1) rest).subset (List.mem_of_getElem? ht)
        have hlt : nonce.toNat < t.nonce.toNat := hfirst ▸ UInt64.lt_iff_toNat_lt.mp (hlower t hmem)
        have hbound := t.nonce.toNat_lt
        rw [hnonce, UInt64.toNat_add, UInt64.toNat_one, Nat.mod_eq_of_lt (by omega)]
        omega

/-- Something is ready when the loop takes something. -/
theorem ready_eq_some_iff {ready : TxList} :
    l.ready nonce baseFee = some ready ↔
      ready = ⟨l.sender, TxList.readyTxs baseFee nonce l.txs⟩ ∧ ready.txs ≠ [] := by
  unfold TxList.ready TxList.peekNonce
  cases htxs : l.txs with
  | nil =>
    refine iff_of_false (Option.some_ne_none ready).symm ?_
    rintro ⟨rfl, hne⟩
    exact hne rfl
  | cons first rest =>
    rw [List.head?_cons, Option.map_some]
    dsimp only
    by_cases hlater : first.nonce > nonce
    · -- the first nonce is not the one to begin with
      have hstop : first.nonce ≠ nonce ∨ (!first.validForBlock baseFee) = true :=
        .inl (UInt64.ne_of_lt hlater).symm
      rw [if_pos hlater, TxList.readyTxs, if_pos hstop]
      refine iff_of_false (Option.some_ne_none ready).symm ?_
      rintro ⟨rfl, hne⟩
      exact hne rfl
    · rw [if_neg hlater]
      cases hready : TxList.readyTxs baseFee nonce (first :: rest) with
      | nil =>
        refine iff_of_false (Option.some_ne_none ready).symm ?_
        rintro ⟨rfl, hne⟩
        exact hne rfl
      | cons t ts =>
        constructor
        · intro h
          obtain rfl := Option.some.inj h
          exact ⟨rfl, List.cons_ne_nil t ts⟩
        · rintro ⟨rfl, -⟩
          rfl

/-- The ready list, by its transactions. -/
theorem exists_ready_iff {p : Transaction → Prop} :
    (∃ ready, l.ready nonce baseFee = some ready ∧ ∃ t ∈ ready.txs, p t) ↔
      ∃ t ∈ TxList.readyTxs baseFee nonce l.txs, p t := by
  constructor
  · rintro ⟨ready, hready, ht⟩
    obtain ⟨rfl, -⟩ := ready_eq_some_iff.mp hready
    exact ht
  · rintro ⟨t, ht, hp⟩
    exact ⟨_, ready_eq_some_iff.mpr ⟨rfl, List.ne_nil_of_mem ht⟩, t, ht, hp⟩

/-- A nonce is ready when a transaction of it is. -/
theorem nonceReady_iff (h : Ordered l.txs) {target : UInt64} :
    l.nonceReady nonce baseFee target = true ↔
      ∃ ready, l.ready nonce baseFee = some ready ∧ ∃ t ∈ ready.txs, t.nonce = target := by
  rw [exists_ready_iff]
  unfold TxList.nonceReady
  by_cases hbelow : target < nonce
  · rw [if_pos hbelow]
    refine iff_of_false Bool.false_ne_true ?_
    rintro ⟨t, ht, rfl⟩
    obtain ⟨i, hi⟩ := List.getElem?_of_mem ht
    have hnonce := (readyTxs_getElem? h hi).1
    have hlt := UInt64.lt_iff_toNat_lt.mp hbelow
    omega
  · rw [if_neg hbelow]
    exact nonceReadyFrom_iff

/-- The ready list that a new transaction is looked up in is there. -/
theorem refresh_ne_none (h : Ordered l.txs) (stateNonce baseFee nonce : UInt64)
    (order : SimulatedTxList) : refresh l stateNonce baseFee nonce order ≠ none := by
  unfold refresh
  split
  · rename_i hnonce
    obtain ⟨ready, hready, -⟩ := (nonceReady_iff h).mp hnonce
    rw [hready]
    exact Option.some_ne_none _
  · exact Option.some_ne_none _

/-- A new transaction never makes the pool panic. -/
theorem handleNewTx_ne_none {pool : TxPool} (h : WellFormed pool) (tx : Transaction)
    (getNonce : Address → UInt64) (baseFee : UInt64) (syncing simSender : Bool) :
    pool.handleNewTx tx getNonce baseFee syncing simSender ≠ none := by
  have hput : ∀ l, ∃ active, pool.activeTxs.put l = some active := by
    intro l
    obtain ⟨active, hactive, -⟩ := put_spec h.indexed l
    exact ⟨active, hactive⟩
  unfold TxPool.handleNewTx
  dsimp only
  split
  · exact Option.some_ne_none _
  · split
    · rename_i l hl
      split
      · exact Option.some_ne_none _
      · split
        · exact Option.some_ne_none _
        · split
          · obtain ⟨active, hactive⟩ := hput (.new none (l.put tx))
            rw [hactive]
            exact Option.some_ne_none _
          · split
            · have hordered : Ordered (l.put tx).txs := ordered_put (h.lists _ _ hl).ordered
              obtain ⟨active, hactive⟩ := exists_modifyTxList h.indexed tx.sender
                (refresh_ne_none hordered (getNonce tx.sender) baseFee tx.nonce)
              unfold refresh at hactive
              rw [hactive]
              exact Option.some_ne_none _
            · exact Option.some_ne_none _
    · split
      · obtain ⟨active, hactive⟩ := hput (.new none (.fromTx tx))
        rw [hactive]
        exact Option.some_ne_none _
      · exact Option.some_ne_none _

/-- In a list in order, a nonce is ready exactly if a transaction of it is, and what is ready has
consecutive nonces from the first one on and pays the base fee. So the pool, whatever was done to
it, never asks for a ready list that is not there.
SRCLINE: transaction/tx_list.rs:59-83,99-121, transaction/pool.rs:61-78 -/
theorem nonceReady_iff_ready {l : TxList} (h : Ordered l.txs) (nonce baseFee target : UInt64) :
    (l.nonceReady nonce baseFee target = true ↔
      ∃ ready, l.ready nonce baseFee = some ready ∧ ∃ t ∈ ready.txs, t.nonce = target) ∧
    (∀ ready, l.ready nonce baseFee = some ready → ∀ i t, ready.txs[i]? = some t →
      t.nonce.toNat = nonce.toNat + i ∧ t.validForBlock baseFee = true) ∧
    ∀ ops pool, runSteps poolStep .empty ops = some pool →
      ∀ tx getNonce syncing simSender,
        pool.handleNewTx tx getNonce baseFee syncing simSender ≠ none := by
  refine ⟨nonceReady_iff h, ?_, ?_⟩
  · intro ready hready i t ht
    obtain ⟨rfl, -⟩ := ready_eq_some_iff.mp hready
    exact readyTxs_getElem? h ht
  · intro ops pool hrun tx getNonce syncing simSender
    have hpool : WellFormed pool :=
      runSteps_induction (fun _ _ _ => wellFormed_step) wellFormed_empty hrun
    exact handleNewTx_ne_none hpool tx getNonce baseFee syncing simSender

/-- Of the nonces 1, 2 and 5 the first two are ready at nonce 1, and a pool that has got the
first of them takes the second. -/
theorem nonceReady_iff_ready_gap :
    (∃ ready, TxList.ready ⟨7, [plainRawTx [1], plainRawTx [2], plainRawTx [5]]⟩ 1 1 = some ready ∧
      ∃ t ∈ ready.txs, t.nonce = 2) ∧
    ∃ pool, runSteps poolStep .empty [arrives 1] = some pool ∧
      pool.handleNewTx (plainRawTx [2]) (fun _ => 1) 1 false true ≠ none := by
  have hordered : Ordered [plainRawTx [1], plainRawTx [2], plainRawTx [5]] := by decide +kernel
  obtain ⟨hiff, -, hpool⟩ := nonceReady_iff_ready
    (l := ⟨7, [plainRawTx [1], plainRawTx [2], plainRawTx [5]]⟩) hordered 1 1 2
  refine ⟨hiff.mp (by decide +kernel), ?_⟩
  have hrun : (runSteps poolStep .empty [arrives 1]).isSome = true := by decide +kernel
  obtain ⟨pool, hpool'⟩ := Option.isSome_iff_exists.mp hrun
  exact ⟨pool, hpool', hpool _ pool hpool' (plainRawTx [2]) (fun _ => 1) false true⟩

end BasedOp.Analysis.TxListMap
