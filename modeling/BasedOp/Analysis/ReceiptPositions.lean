import BasedOp.Analysis.UnsealedInvariant

/-!
# Positions in preconfirmed receipts

The loop over the transactions numbers them from zero, once for every frag. The
receipts of an open block carry these numbers, and its logs those of the transactions
they were emitted by; they are positions in the block only while no second frag
brings transactions.
-/

set_option autoImplicit false

namespace BasedOp.Analysis.ReceiptPositions

open BasedOp.Computation Model Model.OpGeth
open ChainChanges Processing UnsealedInvariant

/-! ## Numbering frag by frag -/

/-- The positions of the transactions of frags, each counted within its own frag. -/
def positions (frags : List Frag) : List ℕ := frags.flatMap fun f => List.range f.txs.length

/-- At most one of the frags has transactions. -/
def SingleFrag (frags : List Frag) : Prop := (frags.filter fun f => f.txs ≠ []).length ≤ 1

/-- A position for each transaction. -/
@[simp] theorem length_positions (frags : List Frag) :
    (positions frags).length = (frags.flatMap Frag.txs).length := by
  simp [positions, List.length_flatMap]

variable {frags : List Frag}

/-- None if there are no transactions. -/
theorem positions_eq_nil_iff : positions frags = [] ↔ ∀ f ∈ frags, f.txs = [] := by
  simp [positions, List.flatMap_eq_nil_iff]

/-- The first position is zero. -/
theorem head?_positions {n : ℕ} (h : (positions frags).head? = some n) : n = 0 := by
  induction frags with
  | nil => cases h
  | cons f fs ih =>
    have hsplit : positions (f :: fs) = List.range f.txs.length ++ positions fs := rfl
    rw [hsplit] at h
    cases hf : f.txs.length with
    | zero =>
      rw [hf, List.range_zero, List.nil_append] at h
      exact ih h
    | succ =>
      rw [hf, List.range_succ_eq_map, List.cons_append, List.head?_cons, Option.some.injEq] at h
      exact h.symm

/-- Counting frag by frag is counting through exactly when at most one frag
has anything to count. -/
theorem positions_eq_range_iff (frags : List Frag) :
    positions frags = List.range (positions frags).length ↔ SingleFrag frags := by
  induction frags with
  | nil => simp [positions, SingleFrag]
  | cons f fs ih =>
    have hsplit : positions (f :: fs) = List.range f.txs.length ++ positions fs := rfl
    by_cases hf : f.txs = []
    · have hnil : positions (f :: fs) = positions fs := by simp [hsplit, hf]
      rw [hnil, ih]
      simp [SingleFrag, hf]
    · have hpos : 0 < f.txs.length := List.length_pos_iff.mpr hf
      have hsingle : SingleFrag (f :: fs) ↔ positions fs = [] := by
        rw [positions_eq_nil_iff]
        simp [SingleFrag, hf]
      rw [hsingle, hsplit, List.length_append, List.length_range, List.range_add,
        List.append_cancel_left_eq]
      constructor
      · intro h
        cases hp : positions fs with
        | nil => rfl
        | cons n =>
          -- the count of the other frags starts at zero again
          have hzero : n = 0 := head?_positions (by rw [hp]; rfl)
          rw [hp, List.length_cons, List.range_succ_eq_map, List.map_cons] at h
          have hn := (List.cons.inj h).1
          omega
      · intro h
        simp [h]

/-! ## The numbers that receipts and logs carry -/

/-- Receipts and logs of an open block carry the positions within the frags. -/
structure Numbered (vm : VM) (ub : UnsealedBlock) (s : StateDB) : Prop where
  receipts : ub.receipts.map Receipt.transactionIndex = positions ub.frags
  logs : ∀ l ∈ s.logs, ∃ (i : ℕ) (tx : Transaction), ub.transactions[i]? = some tx ∧
    (positions ub.frags)[i]? = some l.txIndex ∧ l.txHash = vm.txHash tx
  receipt_logs : ∀ r ∈ ub.receipts, ∀ l ∈ r.logs, l ∈ s.logs ∧ l.txHash = r.txHash
  txHash : ub.receipts.map Receipt.txHash = ub.transactions.map vm.txHash

variable {ub : UnsealedBlock} {s : StateDB}

section

variable {vm : VM} {config : ChainConfig}

/-- A new block has no receipts. -/
theorem numbered_new (env : Env) (A : Accounts) :
    Numbered vm (newUnsealedBlock env) (StateDB.new A) where
  receipts := rfl
  logs l h := by cases h
  receipt_logs r h := by cases h
  txHash := rfl

/-- Taking a frag in numbers its transactions from zero. -/
theorem Numbered.accepts {f : Frag} {ub' : UnsealedBlock} {s' : StateDB} {res : ProcessResult}
    (h : Numbered vm ub s) (hacc : Accepts vm config f ub s res ub' s') : Numbered vm ub' s' := by
  obtain ⟨gas, hproc⟩ := hacc.processed
  obtain ⟨receipts, p, requests, hp, -, rfl, rfl, -⟩ := processWithCumulativeGas_ok_iff.mp hproc
  obtain ⟨-, rfl⟩ := extend_eq_some_iff.mp hacc.extended
  obtain ⟨new, hnew, hemitted⟩ := hp.logs
  have htxs : (ub.frags ++ [f]).flatMap Frag.txs = ub.transactions ++ f.txs := by
    simp [UnsealedBlock.transactions]
  have hpositions : positions (ub.frags ++ [f]) =
      positions ub.frags ++ List.range f.txs.length := by
    simp [positions]
  have hlen : (positions ub.frags).length = ub.transactions.length :=
    length_positions ub.frags
  refine ⟨?_, ?_, ?_, ?_⟩
  · change (ub.receipts ++ receipts).map _ = positions (ub.frags ++ [f])
    rw [List.map_append, h.receipts, hp.map_transactionIndex, hpositions, List.range_eq_range']
    rfl
  · intro l hl
    change l ∈ p.statedb.logs at hl
    change ∃ (i : ℕ) (tx : Transaction), ((ub.frags ++ [f]).flatMap Frag.txs)[i]? = some tx ∧
      (positions (ub.frags ++ [f]))[i]? = some l.txIndex ∧ l.txHash = vm.txHash tx
    rw [htxs, hpositions]
    rw [hnew] at hl
    rcases List.mem_append.mp hl with hl | hl
    · obtain ⟨i, tx, htx, hindex, hhash⟩ := h.logs l hl
      obtain ⟨hi, -⟩ := List.getElem?_eq_some_iff.mp htx
      refine ⟨i, tx, ?_, ?_, hhash⟩
      · rw [List.getElem?_append_left hi]
        exact htx
      · rw [List.getElem?_append_left (hlen ▸ hi)]
        exact hindex
    · obtain ⟨k, tx, htx, hindex, hhash⟩ := hemitted l hl
      obtain ⟨hk, -⟩ := List.getElem?_eq_some_iff.mp htx
      refine ⟨ub.transactions.length + k, tx, ?_, ?_, hhash⟩
      · rw [List.getElem?_append_right (by omega), Nat.add_sub_cancel_left]
        exact htx
      · rw [List.getElem?_append_right (by omega), hlen, Nat.add_sub_cancel_left, hindex,
          Nat.zero_add]
        exact List.getElem?_range hk
  · intro r hr l hl
    change l ∈ p.statedb.logs ∧ _
    rcases List.mem_append.mp hr with hr | hr
    · obtain ⟨hmem, hhash⟩ := h.receipt_logs r hr l hl
      rw [hnew]
      exact ⟨List.mem_append_left _ hmem, hhash⟩
    · exact hp.receipt_logs hr hl
  · change (ub.receipts ++ receipts).map _ = ((ub.frags ++ [f]).flatMap Frag.txs).map _
    rw [List.map_append, h.txHash, hp.map_txHash, htxs, List.map_append]
    rfl

/-- The positions in the receipts of an open block are positions in the block. -/
def InBlockOrder (ub : UnsealedBlock) : Prop :=
  ∀ (i : ℕ) (r : Receipt), ub.receipts[i]? = some r →
    r.transactionIndex = i ∧ ∀ l ∈ r.logs, l.txIndex = i

/-- The receipts are numbered through exactly when at most one frag has transactions. -/
theorem Numbered.transactionIndex_iff (h : Numbered vm ub s) :
    (∀ (i : ℕ) (r : Receipt), ub.receipts[i]? = some r → r.transactionIndex = i) ↔
      SingleFrag ub.frags := by
  have hlen : ub.receipts.length = (positions ub.frags).length := by
    simpa using congrArg List.length h.receipts
  rw [← positions_eq_range_iff, ← h.receipts, List.length_map]
  constructor
  · intro hindex
    apply List.ext_getElem?
    intro i
    rw [List.getElem?_map]
    cases hr : ub.receipts[i]? with
    | none =>
      have hge := List.getElem?_eq_none_iff.mp hr
      rw [List.getElem?_eq_none_iff.mpr (by simpa using hge)]
      rfl
    | some r =>
      obtain ⟨hi, -⟩ := List.getElem?_eq_some_iff.mp hr
      rw [List.getElem?_range hi, Option.map_some, hindex i r hr]
  · intro heq i r hr
    obtain ⟨hi, -⟩ := List.getElem?_eq_some_iff.mp hr
    have hget : (ub.receipts.map Receipt.transactionIndex)[i]? = some r.transactionIndex := by
      rw [List.getElem?_map, hr, Option.map_some]
    rw [heq, List.getElem?_range hi, Option.some.injEq] at hget
    exact hget.symm

/-- A log carries the same number as its receipt, if no other transaction has
the hash it is kept under. -/
theorem Numbered.log_txIndex (h : Numbered vm ub s)
    (hnodup : (ub.transactions.map vm.txHash).Nodup) {i : ℕ} {r : Receipt}
    (hr : ub.receipts[i]? = some r) {l : Log} (hl : l ∈ r.logs) :
    l.txIndex = r.transactionIndex := by
  obtain ⟨hmem, hhash⟩ := h.receipt_logs r (List.mem_of_getElem? hr) l hl
  obtain ⟨k, tx, htx, hindex, hlhash⟩ := h.logs l hmem
  have hk : (ub.transactions.map vm.txHash)[k]? = some r.txHash := by
    rw [List.getElem?_map, htx, Option.map_some, ← hlhash, hhash]
  have hi : (ub.transactions.map vm.txHash)[i]? = some r.txHash := by
    rw [← h.txHash, List.getElem?_map, hr, Option.map_some]
  obtain ⟨hklt, -⟩ := List.getElem?_eq_some_iff.mp hk
  obtain rfl : k = i := (List.getElem?_inj hklt hnodup).mp (hk.trans hi.symm)
  rw [← h.receipts, List.getElem?_map, hr, Option.map_some, Option.some.injEq] at hindex
  exact hindex.symm

end

/-- **Positions in the receipts of an open block.** On every chain that is
reached from one with no open block: if at most one frag of the open block has
transactions and these have different hashes, then receipts and logs carry the
positions in the block; and if the receipts do, at most one frag has transactions.
SRCLINE: state_processor.go:88-103,164-210, blockchain_insert.go:180-233 -/
theorem inBlockOrder_of_singleFrag (vm : VM) (config : ChainConfig) (node : Node)
    {bc₀ bc : BlockChain} {events : List ChainEvent} {ub : UnsealedBlock}
    (hclosed : bc₀.currentUnsealedBlock = none)
    (hrun : runSteps (chainStep vm config node) bc₀ events = some bc)
    (hub : bc.currentUnsealedBlock = some ub) :
    (SingleFrag ub.frags → (ub.transactions.map vm.txHash).Nodup → InBlockOrder ub) ∧
      (InBlockOrder ub → SingleFrag ub.frags) := by
  obtain ⟨s, hs⟩ := exists_state_of_open hclosed hrun hub
  have hnumbered : Numbered vm ub s := openBlock_induction (fun env A => numbered_new env A)
    (fun f ub s res ub' s' h hacc => h.accepts hacc) hclosed hrun hub hs
  constructor
  · intro hsingle hnodup i r hr
    have hindex := hnumbered.transactionIndex_iff.mpr hsingle i r hr
    refine ⟨hindex, fun l hl => ?_⟩
    rw [hnumbered.log_txIndex hnodup hr hl, hindex]
  · intro horder
    exact hnumbered.transactionIndex_iff.mp fun i r hr => (horder i r hr).1

def loggingTx (nonce : UInt64) : Transaction := { plainTx nonce 50000 with data := [1] }

/-- Open block 1 and give it two frags, of the given transactions. -/
def twoFrags (txs txs' : List Transaction) : List ChainEvent :=
  [.call (.env (plainEnv 1 (plainVM.headerHash genesisBlock.header) 2)),
    .call (.newFrag (plainFrag 1 0 false txs)), .call (.newFrag (plainFrag 1 1 false txs'))]

/-- Two transactions in one frag, followed by an empty one. -/
theorem inBlockOrder_of_singleFrag_emptyFrag : ∃ bc ub,
    runSteps (chainStep plainVM plainConfig plainNode) (genesisChain plainVM)
      (twoFrags [loggingTx 0, loggingTx 1] []) = some bc ∧
      bc.currentUnsealedBlock = some ub ∧ ub.receipts.length = 2 ∧ InBlockOrder ub := by
  have h : ((runSteps (chainStep plainVM plainConfig plainNode) (genesisChain plainVM)
      (twoFrags [loggingTx 0, loggingTx 1] [])).bind fun bc =>
        bc.currentUnsealedBlock.map fun ub => (ub.frags.map Frag.txs, ub.receipts.length)) =
      some ([[loggingTx 0, loggingTx 1], []], 2) := by decide +kernel
  obtain ⟨bc, hrun, h⟩ := Option.bind_eq_some_iff.mp h
  obtain ⟨ub, hub, h⟩ := Option.map_eq_some_iff.mp h
  obtain ⟨hfrags, hlen⟩ := Prod.mk.inj h
  have hsingle : SingleFrag ub.frags := by
    have hcount : (ub.frags.map Frag.txs).filter (fun txs => txs ≠ []) =
        [[loggingTx 0, loggingTx 1]] := by rw [hfrags]; decide +kernel
    rw [List.filter_map] at hcount
    have hone := congrArg List.length hcount
    rw [List.length_map] at hone
    exact le_of_eq hone
  have hnodup : (ub.transactions.map plainVM.txHash).Nodup := by
    have htxs : ub.transactions = [loggingTx 0, loggingTx 1] := by
      unfold UnsealedBlock.transactions
      rw [List.flatMap_def, hfrags]
      rfl
    rw [htxs]
    decide +kernel
  exact ⟨bc, ub, hrun, hub, hlen, (inBlockOrder_of_singleFrag plainVM plainConfig plainNode rfl
    hrun hub).1 hsingle hnodup⟩

/-- The transaction of a second frag is numbered zero once more, and so is its log. -/
theorem secondFrag_numbered_from_zero : ∃ bc ub r,
    runSteps (chainStep plainVM plainConfig plainNode) (genesisChain plainVM)
      (twoFrags [loggingTx 0] [loggingTx 1]) = some bc ∧
      bc.currentUnsealedBlock = some ub ∧ ub.receipts[1]? = some r ∧ r.transactionIndex = 0 ∧
      r.logs.map Log.txIndex = [0] ∧ ¬ InBlockOrder ub := by
  have h : ((runSteps (chainStep plainVM plainConfig plainNode) (genesisChain plainVM)
      (twoFrags [loggingTx 0] [loggingTx 1])).bind fun bc => bc.currentUnsealedBlock.bind fun ub =>
        ub.receipts[1]?.map fun r => (r.transactionIndex, r.logs.map Log.txIndex)) =
      some (0, [0]) := by decide +kernel
  obtain ⟨bc, hrun, h⟩ := Option.bind_eq_some_iff.mp h
  obtain ⟨ub, hub, h⟩ := Option.bind_eq_some_iff.mp h
  obtain ⟨r, hr, h⟩ := Option.map_eq_some_iff.mp h
  obtain ⟨hindex, hlogs⟩ := Prod.mk.inj h
  refine ⟨bc, ub, r, hrun, hub, hr, hindex, hlogs, ?_⟩
  intro horder
  have hone := (horder 1 r hr).1
  omega

end BasedOp.Analysis.ReceiptPositions
