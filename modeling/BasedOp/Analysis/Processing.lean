import BasedOp.Model.StateProcessor

/-!
# Processing transactions, step by step

`processTransactions` succeeds exactly when each of its transactions does, one
after the other (`Processes`). The facts about a processed list of transactions
(its receipts, the gas it used, the logs it left in the state) follow by
induction on that relation.
-/

set_option autoImplicit false

namespace BasedOp.Analysis.Processing

open Model Model.OpGeth

/-! ## Logs -/

/-- The logs of one message as the state keeps them, from index `n` on.
SRCLINE: statedb.go:251-262 -/
def stamped (thash : Hash) (ti : ℕ) : ℕ → List LogData → List Log
  | _, [] => []
  | n, d :: ds => { d with txHash := thash, txIndex := ti, index := n } :: stamped thash ti (n + 1) ds

variable {l : Log} {ctx : BlockContext} {receipts : List Receipt}

/-- A stamp names the transaction. -/
theorem mem_stamped {thash : Hash} {ti n : ℕ} {ds : List LogData} (h : l ∈ stamped thash ti n ds) :
    l.txHash = thash ∧ l.txIndex = ti := by
  induction ds generalizing n with
  | nil => cases h
  | cons d ds ih =>
    rcases List.mem_cons.mp h with rfl | h
    · exact ⟨rfl, rfl⟩
    · exact ih h

/-- Adding logs one by one appends them, stamped with the transaction that is being executed. -/
theorem foldl_addLog (s : StateDB) (ds : List LogData) :
    ds.foldl StateDB.addLog s =
      { s with logs := s.logs ++ stamped s.thash s.txIndex s.logs.length ds } := by
  induction ds generalizing s with
  | nil => simp [stamped]
  | cons d ds ih =>
    rw [List.foldl_cons, ih]
    simp [StateDB.addLog, stamped]

variable {p : Processing} {receipt : Receipt}

section

variable {vm : VM} {config : ChainConfig}

/-! ## One transaction -/

/-- A message changes the accounts and appends its logs. -/
theorem applyMessage_eq_some_iff {s s' : StateDB} {msg : Message} {gp gp' : UInt64}
    {res : Except TxError ExecutionResult} :
    applyMessage vm config ctx s msg gp = some (res, s', gp') ↔
      ∃ t, transitionDb vm config ctx s.accounts msg gp = some t ∧ res = t.result ∧ gp' = t.gp ∧
        s' = { s with
          accounts := t.accounts
          logs := s.logs ++ stamped s.thash s.txIndex s.logs.length t.logs } := by
  unfold applyMessage
  rw [Option.map_eq_some_iff]
  constructor
  · rintro ⟨t, ht, h⟩
    simp only [Prod.mk.injEq] at h
    obtain ⟨hres, hs, hgp⟩ := h
    refine ⟨t, ht, hres.symm, hgp.symm, ?_⟩
    rw [← hs, foldl_addLog]
  · rintro ⟨t, ht, rfl, rfl, rfl⟩
    refine ⟨t, ht, ?_⟩
    rw [foldl_addLog]

/-- The receipt of a transaction that has been executed.
SRCLINE: state_processor.go:127-161 -/
def receiptOf (vm : VM) (config : ChainConfig) (ctx : BlockContext) (msg : Message)
    (blockNumber : ℕ) (blockHash : Hash) (tx : Transaction) (before after : StateDB)
    (result : ExecutionResult) (usedGas : UInt64) : Receipt :=
  makeReceipt vm config ctx msg.sender result after blockNumber blockHash tx usedGas
    (if config.isByzantium blockNumber then none
      else some (vm.intermediateRoot (config.isEIP158 blockNumber) after.accounts))
    (if msg.isDepositTx && config.isOptimismRegolith ctx.time then
      (before.accounts msg.sender).nonce else tx.nonce)

/-- A transaction succeeds exactly when its message does. -/
theorem applyTransactionWithEVM_ok_iff {msg : Message} {blockNumber : ℕ} {blockHash : Hash}
    {tx : Transaction} {p' : Processing} :
    applyTransactionWithEVM vm config ctx msg blockNumber blockHash tx p =
        some (.ok receipt, p') ↔
      ∃ result statedb gp,
        applyMessage vm config ctx p.statedb msg p.gp = some (.ok result, statedb, gp) ∧
        receipt = receiptOf vm config ctx msg blockNumber blockHash tx p.statedb statedb result
          (p.usedGas + result.usedGas) ∧
        p' = { statedb, gp, usedGas := p.usedGas + result.usedGas } := by
  unfold applyTransactionWithEVM
  cases h : applyMessage vm config ctx p.statedb msg p.gp with
  | none => simp
  | some r =>
    rcases r with ⟨res, statedb, gp⟩
    cases res with
    | error => simp
    | ok result =>
      simp only [Option.some.injEq, Prod.mk.injEq, Except.ok.injEq]
      constructor
      · rintro ⟨rfl, rfl⟩
        exact ⟨result, statedb, gp, ⟨rfl, rfl, rfl⟩, rfl, rfl⟩
      · rintro ⟨_, _, _, ⟨rfl, rfl, rfl⟩, rfl, rfl⟩
        exact ⟨rfl, rfl⟩

/-! ## The loop -/

/-- The loop over the transactions from index `i` on, every one of which succeeds.
SRCLINE: state_processor.go:88-103 -/
inductive Processes (vm : VM) (config : ChainConfig) (header : Header) (blockHash : Hash) :
    ℕ → List Transaction → Processing → List Receipt → Processing → Prop where
  | nil (i : ℕ) (p : Processing) : Processes vm config header blockHash i [] p [] p
  | cons {i : ℕ} {tx : Transaction} {txs : List Transaction} {p q r : Processing} {msg : Message}
      {receipt : Receipt} {receipts : List Receipt}
      (hmsg : transactionToMessage vm header tx = .ok msg)
      (happly : applyTransactionWithEVM vm config (newEVMBlockContext vm header) msg header.number
        blockHash tx { p with statedb := p.statedb.setTxContext (vm.txHash tx) i } =
          some (.ok receipt, q))
      (hrest : Processes vm config header blockHash (i + 1) txs q receipts r) :
      Processes vm config header blockHash i (tx :: txs) p (receipt :: receipts) r

variable {header : Header} {blockHash : Hash}

/-- The loop returns receipts exactly when every transaction succeeds. -/
theorem processTransactions_ok_iff {i : ℕ} {txs : List Transaction} {p' : Processing} :
    processTransactions vm config header blockHash i txs p = some (.ok receipts, p') ↔
      Processes vm config header blockHash i txs p receipts p' := by
  constructor
  · intro h
    induction txs generalizing i p receipts with
    | nil =>
      simp only [processTransactions, Option.some.injEq, Prod.mk.injEq, Except.ok.injEq] at h
      obtain ⟨rfl, rfl⟩ := h
      exact .nil i p
    | cons tx txs ih =>
      unfold processTransactions at h
      cases hmsg : transactionToMessage vm header tx with
      | error => simp [hmsg] at h
      | ok =>
        simp only [hmsg] at h
        split at h
        · cases h
        · cases h
        · next receipt q happly =>
          split at h
          · cases h
          · cases h
          · next receipts' r hrest =>
            simp only [Option.some.injEq, Prod.mk.injEq, Except.ok.injEq] at h
            obtain ⟨rfl, rfl⟩ := h
            exact .cons hmsg happly (ih hrest)
  · intro h
    induction h with
    | nil => rfl
    | cons hmsg happly hrest ih => simp only [processTransactions, hmsg, happly, ih]

/-- A processed list is processed in two parts at any cut. -/
theorem processes_append {i : ℕ} {xs ys : List Transaction} {r : Processing} :
    Processes vm config header blockHash i (xs ++ ys) p receipts r ↔
      ∃ as bs q, receipts = as ++ bs ∧ Processes vm config header blockHash i xs p as q ∧
        Processes vm config header blockHash (i + xs.length) ys q bs r := by
  induction xs generalizing i p receipts with
  | nil =>
    constructor
    · intro h
      exact ⟨[], receipts, p, rfl, .nil i p, h⟩
    · rintro ⟨as, bs, q, rfl, ⟨_, _⟩, h⟩
      exact h
  | cons x xs ih =>
    have hlen : i + (x :: xs).length = i + 1 + xs.length := by
      simp only [List.length_cons]
      omega
    rw [hlen]
    constructor
    · intro h
      cases h with
      | cons hmsg happly hrest =>
        obtain ⟨as, bs, q, rfl, has, hbs⟩ := ih.mp hrest
        exact ⟨_ :: as, bs, q, rfl, .cons hmsg happly has, hbs⟩
    · rintro ⟨as, bs, q, rfl, has, hbs⟩
      cases has with
      | cons hmsg happly hrest =>
        exact .cons hmsg happly (ih.mpr ⟨_, bs, q, rfl, hrest, hbs⟩)

/-! ## What a processed list leaves behind -/

variable {i : ℕ} {txs : List Transaction} {p p' : Processing} {receipts : List Receipt}

/-- One receipt for each transaction. -/
theorem Processes.map_txHash (h : Processes vm config header blockHash i txs p receipts p') :
    receipts.map Receipt.txHash = txs.map vm.txHash := by
  induction h with
  | nil => rfl
  | cons hmsg happly hrest ih =>
    obtain ⟨result, s, gp, -, rfl, -⟩ := applyTransactionWithEVM_ok_iff.mp happly
    simp only [List.map_cons, ih]
    rfl

/-- The gas of the receipts adds up. -/
theorem Processes.usedGas (h : Processes vm config header blockHash i txs p receipts p') :
    p'.usedGas = p.usedGas + (receipts.map Receipt.gasUsed).sum := by
  induction h with
  | nil => simp
  | cons hmsg happly hrest ih =>
    obtain ⟨result, s, gp, -, rfl, rfl⟩ := applyTransactionWithEVM_ok_iff.mp happly
    rw [ih, List.map_cons, List.sum_cons]
    exact UInt64.add_assoc _ _ _

/-- The last receipt has all the gas. -/
theorem Processes.getLast?_cumulativeGasUsed
    (h : Processes vm config header blockHash i txs p receipts p')
    (hlast : receipts.getLast? = some receipt) : receipt.cumulativeGasUsed = p'.usedGas := by
  induction h with
  | nil => simp at hlast
  | @cons i tx txs p q r msg receipt₁ receipts hmsg happly hrest ih =>
    cases receipts with
    | nil =>
      obtain ⟨result, s, gp, -, rfl, rfl⟩ := applyTransactionWithEVM_ok_iff.mp happly
      cases hrest
      obtain rfl := Option.some.inj hlast
      rfl
    | cons =>
      rw [List.getLast?_cons_cons] at hlast
      exact ih hlast

/-- So does the last of all receipts, if it did before. -/
theorem Processes.getLast?_append_cumulativeGasUsed
    (h : Processes vm config header blockHash i txs p receipts p') {before : List Receipt}
    (hbefore : ∀ r, before.getLast? = some r → r.cumulativeGasUsed = p.usedGas) {r : Receipt}
    (hr : (before ++ receipts).getLast? = some r) : r.cumulativeGasUsed = p'.usedGas := by
  cases hrs : receipts with
  | nil =>
    -- without transactions the gas used so far stays what it was
    have hused := h.usedGas
    rw [hrs, List.map_nil, List.sum_nil, UInt64.add_zero] at hused
    rw [hrs, List.append_nil] at hr
    rw [hused]
    exact hbefore r hr
  | cons =>
    rw [List.getLast?_append_of_ne_nil _ (by simp [hrs])] at hr
    exact h.getLast?_cumulativeGasUsed hr

/-- The receipts are numbered from the index the loop starts at. -/
theorem Processes.map_transactionIndex
    (h : Processes vm config header blockHash i txs p receipts p') :
    receipts.map Receipt.transactionIndex = List.range' i txs.length := by
  induction h with
  | nil => rfl
  | @cons i tx txs p q r msg receipt receipts hmsg happly hrest ih =>
    obtain ⟨result, s, gp, hmsg, rfl, -⟩ := applyTransactionWithEVM_ok_iff.mp happly
    obtain ⟨t, -, -, -, rfl⟩ := applyMessage_eq_some_iff.mp hmsg
    rw [List.map_cons, ih, List.length_cons, List.range'_succ]
    rfl

/-- A log that was emitted by one of the transactions, numbered from `i` on. -/
def EmittedBy (vm : VM) (txs : List Transaction) (i : ℕ) (l : Log) : Prop :=
  ∃ k tx, txs[k]? = some tx ∧ l.txIndex = i + k ∧ l.txHash = vm.txHash tx

/-- One transaction more in front. -/
theorem EmittedBy.tail {tx : Transaction} (h : EmittedBy vm txs (i + 1) l) :
    EmittedBy vm (tx :: txs) i l := by
  obtain ⟨k, tx', hk, hindex, hhash⟩ := h
  exact ⟨k + 1, tx', hk, by omega, hhash⟩

/-- The state keeps its logs and gets those that the transactions emit. -/
theorem Processes.logs (h : Processes vm config header blockHash i txs p receipts p') :
    ∃ new, p'.statedb.logs = p.statedb.logs ++ new ∧ ∀ l ∈ new, EmittedBy vm txs i l := by
  induction h with
  | nil => exact ⟨[], by simp, by simp⟩
  | @cons i tx txs p q r msg receipt receipts hmsg happly hrest ih =>
    obtain ⟨result, s, gp, hmsg, rfl, rfl⟩ := applyTransactionWithEVM_ok_iff.mp happly
    obtain ⟨t, -, -, -, rfl⟩ := applyMessage_eq_some_iff.mp hmsg
    obtain ⟨new, hnew, hemitted⟩ := ih
    refine ⟨stamped (vm.txHash tx) i p.statedb.logs.length t.logs ++ new, ?_, ?_⟩
    · rw [hnew, ← List.append_assoc]
      rfl
    · intro l hl
      rcases List.mem_append.mp hl with hl | hl
      · obtain ⟨hhash, hindex⟩ := mem_stamped hl
        exact ⟨0, tx, rfl, hindex, hhash⟩
      · exact (hemitted l hl).tail

/-- The logs of a receipt are logs of the state, kept under its hash. -/
theorem Processes.receipt_logs (h : Processes vm config header blockHash i txs p receipts p')
    (hr : receipt ∈ receipts) (hl : l ∈ receipt.logs) :
    l ∈ p'.statedb.logs ∧ l.txHash = receipt.txHash := by
  induction h with
  | nil => cases hr
  | @cons i tx txs p q r msg receipt₁ receipts hmsg happly hrest ih =>
    rcases List.mem_cons.mp hr with rfl | hr
    · obtain ⟨new, hnew, -⟩ := hrest.logs
      obtain ⟨result, s, gp, -, rfl, rfl⟩ := applyTransactionWithEVM_ok_iff.mp happly
      obtain ⟨hmem, hhash⟩ := List.mem_filter.mp hl
      rw [hnew]
      exact ⟨List.mem_append_left _ hmem, of_decide_eq_true hhash⟩
    · exact ih hr

/-! ## A block or a frag -/

/-- A block is processed exactly when its transactions are, on the state
that the pre-execution leaves, and its deposit logs can be read. -/
theorem processWithCumulativeGas_ok_iff {block : Block} {s s' : StateDB} {gas gas' : UInt64}
    {res : ProcessResult} :
    processWithCumulativeGas vm config block s gas = some (.ok res, s', gas') ↔
      ∃ receipts p requests,
        Processes vm config block.header (vm.headerHash block.header) 0 block.body.transactions
          { statedb := { s with accounts := preExecution vm config block.header s.accounts }
            gp := block.header.gasLimit, usedGas := gas } receipts p ∧
        (if config.isPrague block.header.number block.header.time then
          parseDepositLogs vm config (receipts.flatMap Receipt.logs) else .ok []) = .ok requests ∧
        res = { receipts, requests, logs := receipts.flatMap Receipt.logs, gasUsed := p.usedGas } ∧
        s' = { p.statedb with
          accounts := vm.finalize block.header block.body p.statedb.accounts } ∧
        gas' = p.usedGas := by
  simp only [← processTransactions_ok_iff]
  unfold processWithCumulativeGas
  dsimp only
  split
  · next h => simp [h]
  · next err p h => simp [h]
  · next receipts p h =>
    simp only [h, Option.some.injEq, Prod.mk.injEq, Except.ok.injEq]
    split
    · next err hreq =>
      simp only [Option.some.injEq, Prod.mk.injEq, reduceCtorEq, false_and, false_iff]
      rintro ⟨receipts', p', requests, ⟨rfl, rfl⟩, hreq', -⟩
      rw [hreq] at hreq'
      cases hreq'
    · next requests hreq =>
      constructor
      · intro h
        simp only [Option.some.injEq, Prod.mk.injEq, Except.ok.injEq] at h
        obtain ⟨rfl, rfl, rfl⟩ := h
        exact ⟨receipts, p, requests, ⟨rfl, rfl⟩, hreq, rfl, rfl, rfl⟩
      · rintro ⟨receipts', p', requests', ⟨rfl, rfl⟩, hreq', rfl, rfl, rfl⟩
        rw [hreq] at hreq'
        obtain rfl := Except.ok.inj hreq'
        rfl

end

end BasedOp.Analysis.Processing
