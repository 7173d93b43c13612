import BasedOp.Analysis.GasPool
import BasedOp.Analysis.UnsealedInvariant

/-!
# Gas across the frags of a block

Every frag is processed on a pool of its own that holds the gas limit of the whole
block. The transactions of one frag cannot use more than that, and not more than
their own gas limits, but nothing is left out of the pool for the frags before:
the gas of an open block stays within its limit as long as each frag that is
inserted is the first to use gas or asks for no more than the block has left.
-/

set_option autoImplicit false

namespace BasedOp.Analysis.FragGas

open BasedOp.Computation Model Model.OpGeth
open ChainChanges GasPool Processing
open UnsealedInvariant

/-- The gas limits of transactions, added up. -/
def requestedGas (txs : List Transaction) : ℕ := (txs.map fun tx => tx.gas.toNat).sum

/-- What the transactions of a frag may use fits into what the block has left. -/
def FitsBlock (ub : UnsealedBlock) (f : Frag) : Prop :=
  ub.cumulativeGasUsed.toNat + requestedGas f.txs ≤ ub.env.gasLimit.toNat

/-- No transaction is exempt from the gas pool. -/
def ReservesGas (f : Frag) : Prop := ∀ tx ∈ f.txs, tx.isSystemTx = false

instance (ub : UnsealedBlock) (f : Frag) : Decidable (FitsBlock ub f) :=
  inferInstanceAs (Decidable (_ ≤ _))

instance (f : Frag) : Decidable (ReservesGas f) :=
  inferInstanceAs (Decidable (∀ tx ∈ f.txs, tx.isSystemTx = false))

/-- A frag that comes in is the first of its block to use gas, or fits into what the
block has left. -/
def FragsFit (bc : BlockChain) : ChainEvent → Prop
  | .call (.newFrag f) => ∀ ub ∈ bc.currentUnsealedBlock,
      (ub.cumulativeGasUsed = 0 ∧ ReservesGas f.frag) ∨ FitsBlock ub f.frag
  | _ => True

instance (bc : BlockChain) : (e : ChainEvent) → Decidable (FragsFit bc e)
  | .call (.newFrag f) => inferInstanceAs (Decidable (∀ ub ∈ bc.currentUnsealedBlock,
      (ub.cumulativeGasUsed = 0 ∧ ReservesGas f.frag) ∨ FitsBlock ub f.frag))
  | .call (.env _) | .call (.sealFrag _) | .newPayload _ _ | .forkchoiceUpdated _
  | .cacheBlock _ _ | .evictBlock _ | .statesChange _ => isTrue trivial

section

variable {vm : VM} {config : ChainConfig} {header : Header} {blockHash : Hash} {i : ℕ}
  {txs : List Transaction} {p p' : Processing} {receipts : List Receipt}

/-- A message has the gas of its transaction. -/
theorem transactionToMessage_gas {tx : Transaction} {msg : Message}
    (h : transactionToMessage vm header tx = .ok msg) :
    msg.gasLimit = tx.gas ∧ msg.isSystemTx = tx.isSystemTx := by
  unfold transactionToMessage at h
  split at h
  · cases h
  · obtain rfl := Except.ok.inj h
    exact ⟨rfl, rfl⟩

/-- The gas used grows by no more than what the transactions ask for. -/
theorem Processes.usedGas_le_requested (hvm : GasSound vm)
    (h : Processes vm config header blockHash i txs p receipts p') :
    p'.usedGas.toNat ≤ p.usedGas.toNat + requestedGas txs := by
  induction h with
  | nil => exact Nat.le_add_right _ _
  | @cons i tx txs p q r msg receipt receipts hmsg happly hrest ih =>
    obtain ⟨result, s, gp, happlied, -, rfl⟩ := applyTransactionWithEVM_ok_iff.mp happly
    obtain ⟨t, ht, hres, -, -⟩ := applyMessage_eq_some_iff.mp happlied
    have hused := transitionDb_usedGas_le hvm ht hres.symm
    rw [(transactionToMessage_gas hmsg).1, UInt64.le_iff_toNat_le] at hused
    have hadd := UInt64.toNat_add p.usedGas result.usedGas
    have hmod := Nat.mod_le (p.usedGas.toNat + result.usedGas.toNat) (2 ^ 64)
    have hsum : requestedGas (tx :: txs) = tx.gas.toNat + requestedGas txs := rfl
    dsimp only at ih
    omega

/-- What the transactions use comes out of the pool they are given. -/
theorem Processes.gp_add_usedGas_le (hvm : GasSound vm)
    (h : Processes vm config header blockHash i txs p receipts p')
    (hsys : ∀ tx ∈ txs, tx.isSystemTx = false) :
    p'.gp.toNat + p'.usedGas.toNat ≤ p.gp.toNat + p.usedGas.toNat := by
  induction h with
  | nil => exact le_refl _
  | @cons i tx txs p q r msg receipt receipts hmsg happly hrest ih =>
    obtain ⟨result, s, gp, happlied, -, rfl⟩ := applyTransactionWithEVM_ok_iff.mp happly
    obtain ⟨t, ht, hres, rfl, -⟩ := applyMessage_eq_some_iff.mp happlied
    have hsystem : msg.isSystemTx = false :=
      (transactionToMessage_gas hmsg).2.trans (hsys tx List.mem_cons_self)
    have hcharged := transitionDb_charges hvm hsystem ht hres.symm
    have hrest := ih fun tx' htx' => hsys tx' (List.mem_cons_of_mem _ htx')
    have hadd := UInt64.toNat_add p.usedGas result.usedGas
    have hmod := Nat.mod_le (p.usedGas.toNat + result.usedGas.toNat) (2 ^ 64)
    dsimp only at hrest hcharged
    omega

/-- A frag that fits, or is the first to use gas, keeps the block within its limit. -/
theorem cumulativeGasUsed_le_of_accepts {f : Frag} {ub ub' : UnsealedBlock} {s s' : StateDB}
    {res : ProcessResult} (hvm : GasSound vm) (hacc : Accepts vm config f ub s res ub' s')
    (hfits : (ub.cumulativeGasUsed = 0 ∧ ReservesGas f) ∨ FitsBlock ub f) :
    ub'.cumulativeGasUsed ≤ ub'.env.gasLimit := by
  obtain ⟨gas, hproc⟩ := hacc.processed
  obtain ⟨receipts, p, requests, hp, -, rfl, -, -⟩ := processWithCumulativeGas_ok_iff.mp hproc
  obtain ⟨-, rfl⟩ := extend_eq_some_iff.mp hacc.extended
  change p.usedGas ≤ ub.env.gasLimit
  rw [UInt64.le_iff_toNat_le]
  rcases hfits with ⟨hzero, hreserves⟩ | hfits
  · have hpool : p.gp.toNat + p.usedGas.toNat ≤
        ub.env.gasLimit.toNat + ub.cumulativeGasUsed.toNat :=
      Processes.gp_add_usedGas_le hvm hp hreserves
    rw [hzero, UInt64.toNat_zero] at hpool
    omega
  · exact le_trans (Processes.usedGas_le_requested hvm hp) hfits

/-- One event keeps the open block within its limit. -/
theorem chainStep_cumulativeGasUsed_le {node : Node} (hvm : GasSound vm) {bc bc' : BlockChain}
    {e : ChainEvent} (hfits : FragsFit bc e)
    (hbound : ∀ ub, bc.currentUnsealedBlock = some ub → ub.cumulativeGasUsed ≤ ub.env.gasLimit)
    (hstep : chainStep vm config node bc e = some bc') :
    ∀ ub, bc'.currentUnsealedBlock = some ub → ub.cumulativeGasUsed ≤ ub.env.gasLimit := by
  intro ub' hub'
  rcases chainStep_cases hstep with ⟨c, response, rfl, hcall⟩ | ⟨header, body, -, hchange⟩ |
    ⟨hash, block, -, -, hchange⟩ | ⟨cache, states, rfl, -⟩
  · cases served_of_serve hcall with
    | failed => cases hub'
    | sealFailed c err ub s hchange =>
      rw [hchange.unsealed.1] at hub'
      cases hub'
    | opened =>
      obtain rfl := Option.some.inj hub'
      exact UInt64.zero_le
    | @accepted f ub s res ub₁ s₁ hub hs hacc =>
      obtain rfl := Option.some.inj hub'
      exact cumulativeGasUsed_le_of_accepts hvm hacc (hfits ub hub)
    | @acceptedLast f ub s res ub₁ s₁ _ hub hs hacc _ hchange =>
      rw [hchange.unsealed.1] at hub'
      obtain rfl := Option.some.inj hub'
      exact cumulativeGasUsed_le_of_accepts hvm hacc (hfits ub hub)
    | canonical => cases hub'
  · exact hbound ub' (hchange.unsealed.1 ▸ hub')
  · exact hbound ub' (hchange.unsealed.1 ▸ hub')
  · exact hbound ub' hub'

end

/-- **The gas of an open block stays within its limit while its frags fit.** If the virtual machine
never returns more gas than a message came with, then on every chain reached from one with no open
block, by events whose frags are the first of their block to use gas or fit into what it has left,
the open block has used no more than its limit.
SRCLINE: state_processor.go:60-122, blockchain_insert.go:180-233 -/
theorem cumulativeGasUsed_le_gasLimit {vm : VM} {config : ChainConfig} {node : Node}
    (hvm : GasSound vm) {bc₀ bc : BlockChain} {events : List ChainEvent} {ub : UnsealedBlock}
    (hclosed : bc₀.currentUnsealedBlock = none)
    (hfits : Along (chainStep vm config node) FragsFit bc₀ events)
    (hrun : runSteps (chainStep vm config node) bc₀ events = some bc)
    (hub : bc.currentUnsealedBlock = some ub) :
    ub.cumulativeGasUsed ≤ ub.env.gasLimit := by
  refine hfits.induction (I := fun bc => ∀ ub, bc.currentUnsealedBlock = some ub →
    ub.cumulativeGasUsed ≤ ub.env.gasLimit) ?_ ?_ hrun ub hub
  · intro bc e bc' hfits hbound hstep
    exact chainStep_cumulativeGasUsed_le hvm hfits hbound hstep
  · intro ub hub
    rw [hclosed] at hub
    cases hub

/-- Open block 1 with the given gas limit and give it two frags, of one transaction each. -/
def twoTransfers (gasLimit : UInt64) : List ChainEvent :=
  let env := plainEnv 1 (plainVM.headerHash genesisBlock.header) 2
  [.call (.env { env with env := { env.env with gasLimit := gasLimit } }),
    .call (.newFrag (plainFrag 1 0 false [plainTx 0 21000])),
    .call (.newFrag (plainFrag 1 1 false [plainTx 1 21000]))]

/-- Two transfers fit into a block of exactly their gas. -/
theorem twoTransfers_fill_block : ∃ bc ub,
    runSteps (chainStep plainVM plainConfig plainNode) (genesisChain plainVM)
      (twoTransfers 42000) = some bc ∧
      bc.currentUnsealedBlock = some ub ∧ ub.cumulativeGasUsed = 42000 ∧
      ub.cumulativeGasUsed ≤ ub.env.gasLimit := by
  have h : ((runSteps (chainStep plainVM plainConfig plainNode) (genesisChain plainVM)
      (twoTransfers 42000)).bind fun bc => bc.currentUnsealedBlock.map fun ub =>
        ub.cumulativeGasUsed) = some 42000 := by decide +kernel
  obtain ⟨bc, hrun, h⟩ := Option.bind_eq_some_iff.mp h
  obtain ⟨ub, hub, hgas⟩ := Option.map_eq_some_iff.mp h
  have hfits : Along (chainStep plainVM plainConfig plainNode) FragsFit (genesisChain plainVM)
      (twoTransfers 42000) := by decide +kernel
  exact ⟨bc, ub, hrun, hub, hgas,
    cumulativeGasUsed_le_gasLimit gasSound_plainVM rfl hfits hrun hub⟩

/-- A second frag takes a block over its limit. -/
theorem twoTransfers_overflow_block : ∃ bc ub,
    runSteps (chainStep plainVM plainConfig plainNode) (genesisChain plainVM)
      (twoTransfers 30000) = some bc ∧
      bc.currentUnsealedBlock = some ub ∧ ub.cumulativeGasUsed = 42000 ∧
      ub.env.gasLimit = 30000 ∧ ¬ ub.cumulativeGasUsed ≤ ub.env.gasLimit := by
  have h : ((runSteps (chainStep plainVM plainConfig plainNode) (genesisChain plainVM)
      (twoTransfers 30000)).bind fun bc => bc.currentUnsealedBlock.map fun ub =>
        (ub.cumulativeGasUsed, ub.env.gasLimit)) = some (42000, 30000) := by decide +kernel
  obtain ⟨bc, hrun, h⟩ := Option.bind_eq_some_iff.mp h
  obtain ⟨ub, hub, h⟩ := Option.map_eq_some_iff.mp h
  obtain ⟨hgas, hlimit⟩ := Prod.mk.inj h
  refine ⟨bc, ub, hrun, hub, hgas, hlimit, ?_⟩
  rw [hgas, hlimit]
  decide

end BasedOp.Analysis.FragGas
