import BasedOp.Analysis.ActiveIndex

/-!
# The list of a sender whose first transaction is simulated

`new` is made for a list that continues with the nonce after the simulated one, and asserts
this in debug builds; the assertion adds the one on the wrong side, so it fails as soon as the
sender has a further transaction (`handleSimulated_asserts_iff`). `pop` tells whether the next
transaction can be applied in one of two ways. If the popped one was held as the current one,
the next one is tested as everywhere else. If it had been taken from the pending ones before,
the lower 64 bits of its fee are compared with the base fee, and not strictly, so the answers
differ for a fee that is the base fee or does not fit (`pop_tells_iff`).
-/

set_option autoImplicit false

namespace BasedOp.Analysis.SimulatedLists

open BasedOp.Computation Model Model.Gateway
open PoolRetention ActiveIndex

/-! ## The assertion on a new list -/

/-- The transactions have consecutive nonces, beginning with the given one. -/
def ConsecutiveFrom (nonce : UInt64) (txs : List Transaction) : Prop :=
  ∀ i t, txs[i]? = some t → t.nonce.toNat = nonce.toNat + i

/-- The first has the nonce. -/
theorem ConsecutiveFrom.head_nonce {nonce : UInt64} {first : Transaction} {rest : List Transaction}
    (h : ConsecutiveFrom nonce (first :: rest)) : first.nonce = nonce := by
  apply UInt64.toNat_inj.mp
  exact h 0 first rfl

/-- The first transaction is the simulated one, and is taken off the list. -/
theorem trim_of_consecutive {c : SimulatedTx} {l : TxList} (h : ConsecutiveFrom c.nonce l.txs) :
    (SimulatedTxList.trim (some c) l).txs = l.txs.tail := by
  unfold SimulatedTxList.trim TxList.peekNonce
  cases htxs : l.txs with
  | nil => simp [htxs]
  | cons first rest =>
    rw [htxs] at h
    have hnonce : (first :: rest).head?.map (·.nonce) = some c.nonce := by
      rw [List.head?_cons, Option.map_some, h.head_nonce]
    dsimp only
    rw [if_pos hnonce, TxList.popFront, htxs]

/-- The assertion made when a simulated transaction is handled holds exactly if its sender has no
further transaction.
SRCLINE: simulated/tx_list.rs:31-34, transaction/pool.rs:96-107 -/
theorem handleSimulated_asserts_iff {pool : TxPool} {tx : SimulatedTx} {l : TxList}
    (hl : pool.poolData.lookup tx.sender = some l) (h : ConsecutiveFrom tx.nonce l.txs) :
    pool.handleSimulatedAsserts tx = true ↔ l.txs.length ≤ 1 := by
  unfold TxPool.handleSimulatedAsserts SimulatedTxList.newAsserts TxList.peekNonce
  rw [hl]
  dsimp only
  rw [trim_of_consecutive h]
  cases htxs : l.txs with
  | nil => simp
  | cons first rest =>
    cases rest with
    | nil => simp
    | cons second =>
      -- the second nonce is above the simulated one, not below
      have hsecond : second.nonce.toNat = tx.nonce.toNat + 1 := h 1 second (by rw [htxs]; rfl)
      have hne : ¬ (second.nonce.toNat + 1 < UInt64.size ∧ tx.nonce = second.nonce + 1) := by
        rintro ⟨hlt, heq⟩
        have hnat : tx.nonce.toNat = second.nonce.toNat + 1 := by
          rw [heq, UInt64.toNat_add, UInt64.toNat_one]
          exact Nat.mod_eq_of_lt hlt
        omega
      refine iff_of_false ?_ (by simp)
      simpa using hne

/-- A pool with one transaction. -/
theorem handleSimulated_asserts_single :
    ∃ pool, runSteps poolStep .empty [arrives 1] = some pool ∧
      pool.handleSimulatedAsserts (plainSimulated 1) = true := by
  have hview : (runSteps poolStep .empty [arrives 1]).bind
      (fun pool => (pool.poolData.lookup 7).map TxList.txs) = some [plainRawTx [1]] := by
    decide +kernel
  obtain ⟨pool, hrun, hlist⟩ := Option.bind_eq_some_iff.mp hview
  obtain ⟨l, hl, htxs⟩ := Option.map_eq_some_iff.mp hlist
  have hlookup : pool.poolData.lookup (plainSimulated 1).sender = some l := hl
  refine ⟨pool, hrun, (handleSimulated_asserts_iff hlookup ?_).mpr ?_⟩
  · rw [htxs]
    intro i t ht
    cases i with
    | zero =>
      obtain rfl := Option.some.inj ht
      decide +kernel
    | succ => cases ht
  · rw [htxs]
    decide

/-- With two transactions queued the assertion fails for the first of them.
SRCLINE: simulated/tx_list.rs:31-34 -/
theorem handleSimulated_asserts_fails :
    ∃ pool l, runSteps poolStep .empty [arrives 1, arrives 2] = some pool ∧
      pool.poolData.lookup (plainSimulated 1).sender = some l ∧
      l.txs.map Transaction.nonce = [1, 2] ∧ (plainSimulated 1).nonce = 1 ∧
      pool.handleSimulatedAsserts (plainSimulated 1) = false := by
  have hview : (runSteps poolStep .empty [arrives 1, arrives 2]).bind
      (fun pool => (pool.poolData.lookup (plainSimulated 1).sender).map fun l =>
        (l.txs.map Transaction.nonce, pool.handleSimulatedAsserts (plainSimulated 1))) =
      some ([1, 2], false) := by
    decide +kernel
  obtain ⟨pool, hrun, hlist⟩ := Option.bind_eq_some_iff.mp hview
  obtain ⟨l, hl, heq⟩ := Option.map_eq_some_iff.mp hlist
  obtain ⟨hnonces, hasserts⟩ := Prod.mk.inj heq
  exact ⟨pool, l, hrun, hl, hnonces, by decide +kernel, hasserts⟩

/-! ## Whether a sender is exhausted -/

/-- No transaction of the sender can be applied next: nothing is pending, or the first does not
pay the base fee. -/
def Exhausted (l : SimulatedTxList) (baseFee : UInt64) : Prop :=
  l.pending.isEmpty = true ∨
    ∃ first, l.pending.peek = some first ∧ first.validForBlock baseFee = false

/-- The lower 64 bits of a fee are below the base fee exactly if the fee is not above it. -/
def FeeFits (fee : U128) (baseFee : UInt64) : Prop :=
  fee.toNat ≠ baseFee.toNat ∧ (fee.toNat < 2 ^ 64 ∨ baseFee.toNat ≤ fee.toNat % 2 ^ 64)

instance (fee : U128) (baseFee : UInt64) : Decidable (FeeFits fee baseFee) :=
  inferInstanceAs (Decidable (_ ∧ _))

/-- When cutting off the fee changes nothing. -/
theorem feeFits_iff (fee : U128) (baseFee : UInt64) :
    FeeFits fee baseFee ↔ (fee.toNat % 2 ^ 64 < baseFee.toNat ↔ ¬ baseFee.toNat < fee.toNat) := by
  have hbase := baseFee.toNat_lt
  unfold FeeFits
  by_cases hfee : fee.toNat < 2 ^ 64
  · rw [Nat.mod_eq_of_lt hfee]
    omega
  · omega

/-- A transaction that is not a deposit is tested by its fee. -/
theorem validForBlock_eq {t : Transaction} (h : t.isDeposit = false) (baseFee : UInt64) :
    t.validForBlock baseFee = decide (baseFee.toNat < t.tx.maxFeePerGas.toNat) := by
  have hprice : t.gasPriceOrMaxFee = some t.tx.maxFeePerGas := by
    unfold Transaction.isDeposit at h
    unfold Transaction.gasPriceOrMaxFee
    cases htx : t.tx with
    | deposit =>
      rw [htx] at h
      cases h
    | _ => rfl
  have hbase : baseFee.toNat < 2 ^ 128 := by
    have := baseFee.toNat_lt
    omega
  unfold Transaction.validForBlock
  rw [hprice]
  dsimp only
  apply decide_eq_decide.mpr
  rw [gt_iff_lt, BitVec.lt_def, BitVec.toNat_ofNat, Nat.mod_eq_of_lt hbase]

/-- `pop` tells whether a sender is exhausted if the popped transaction was held as the current
one, and otherwise exactly if the fee of the next one fits.
SRCLINE: simulated/tx_list.rs:64-75 -/
theorem pop_tells_iff {l : SimulatedTxList} {baseFee : UInt64}
    (hnext : ∀ c first, l.current = some c → l.pending.peek = some first →
      first.nonce.toNat = c.nonce.toNat + 1)
    (hdeposit : ∀ first, l.pending.peek = some first → first.isDeposit = false) :
    ((l.pop baseFee).1 = true ↔ Exhausted l baseFee) ↔
      l.current ≠ none ∨
        ∀ first, l.pending.peek = some first → FeeFits first.tx.maxFeePerGas baseFee := by
  unfold SimulatedTxList.pop Exhausted TxList.isEmpty TxList.firstReady
  unfold TxList.peek at *
  cases htxs : l.pending.txs with
  | nil => simp
  | cons first =>
    rw [htxs, List.head?_cons] at hnext hdeposit
    have hvalid := validForBlock_eq (hdeposit first rfl) baseFee
    simp only [List.isEmpty_cons, Bool.false_eq_true, if_false, List.head?_cons,
      Option.some.injEq, exists_eq_left', forall_eq', false_or]
    cases hcurrent : l.current with
    | some c =>
      -- the next nonce is the one asked for, so only the fee is left
      have hnonce : first.nonce = c.nonce + 1 := by
        have hnat := hnext c first hcurrent rfl
        have hlt := first.nonce.toNat_lt
        apply UInt64.toNat_inj.mp
        rw [hnat, UInt64.toNat_add, UInt64.toNat_one, Nat.mod_eq_of_lt (by omega)]
      refine iff_of_true ?_ (.inl (Option.some_ne_none c))
      dsimp only
      rw [hnonce]
      cases first.validForBlock baseFee <;> simp
    | none =>
      dsimp only
      rw [hvalid, Option.all_some, feeFits_iff]
      simp [UInt64.lt_iff_toNat_lt]

/-- A list that pays more than the base fee. -/
theorem pop_tells_above :
    (SimulatedTxList.pop ⟨none, ⟨7, [plainRawTx [1]]⟩⟩ 1).1 = true ↔
      Exhausted ⟨none, ⟨7, [plainRawTx [1]]⟩⟩ 1 := by
  refine (pop_tells_iff ?_ ?_).mpr (.inr ?_)
  · intro c first hcurrent
    cases hcurrent
  · intro first hfirst
    obtain rfl := Option.some.inj hfirst
    decide
  · intro first hfirst
    obtain rfl := Option.some.inj hfirst
    decide

/-- A transaction of a legacy sender that pays the given price. -/
def pricedTx (gasPrice : U128) : Transaction where
  tx := .legacy { nonce := 1, gasLimit := 50000, gasPrice, body := [] }
  sender := 7
  envelope := []

/-- A sender whose next transaction pays just the base fee is not exhausted by what `pop` says,
and one whose next transaction pays `2 ^ 64` is.
SRCLINE: simulated/tx_list.rs:72-74 -/
theorem pop_misleads :
    ((SimulatedTxList.pop ⟨none, ⟨7, [pricedTx 2]⟩⟩ 2).1 = false ∧
      Exhausted ⟨none, ⟨7, [pricedTx 2]⟩⟩ 2) ∧
    (SimulatedTxList.pop ⟨none, ⟨7, [pricedTx (2 ^ 64)]⟩⟩ 2).1 = true ∧
      ¬ Exhausted ⟨none, ⟨7, [pricedTx (2 ^ 64)]⟩⟩ 2 := by
  refine ⟨⟨by decide +kernel, .inr ⟨pricedTx 2, rfl, by decide +kernel⟩⟩, by decide +kernel, ?_⟩
  rintro (hempty | ⟨first, hfirst, hvalid⟩)
  · cases hempty
  · obtain rfl := Option.some.inj hfirst
    have : (pricedTx (2 ^ 64)).validForBlock 2 = true := by decide +kernel
    rw [this] at hvalid
    cases hvalid

end BasedOp.Analysis.SimulatedLists
