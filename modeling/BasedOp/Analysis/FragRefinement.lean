import BasedOp.Analysis.GasPool
import BasedOp.Analysis.UnsealedInvariant

/-!
# Frags refine the whole block

A block is executed at once, or cut into frags that are inserted one by one, each
under its own header with a fresh gas pool. The two executions are compared
transaction by transaction (`Agree`): they have the same accounts, the same gas
used so far and the same logs up to their positions, and the pool of the frag is
at least as full.
-/

set_option autoImplicit false

namespace BasedOp.Analysis.FragRefinement

open BasedOp.Computation Model Model.OpGeth
open GasPool Processing UnsealedInvariant

/-! ## Headers of one environment -/

/-- A header under which transactions execute in the environment of an Env. -/
structure ExecutesUnder (env : Env) (h : Header) : Prop where
  parentHash : h.parentHash = env.parentHash
  coinbase : h.coinbase = env.beneficiary
  difficulty : h.difficulty = (env.difficulty.map BitVec.toNat).getD 0
  number : h.number = env.number.toNat
  gasLimit : h.gasLimit = env.gasLimit
  time : h.time = env.timestamp
  mixDigest : h.mixDigest = env.prevrandao
  baseFee : h.baseFee = some env.basefee.toNat
  excessBlobGas : h.excessBlobGas = some 0
  parentBeaconRoot : h.parentBeaconRoot = some env.parentBeaconBlockRoot

variable {ub : UnsealedBlock} {s : StateDB} {bh : Hash} {i : ℕ} {p p' : Processing}
  {receipts : List Receipt} {bc : BlockChain} {f : Frag} {ctx : BlockContext}
  {before : List Receipt}

/-- A frag is executed under its env. -/
theorem executesUnder_fragHeader (h : f.blockNumber = ub.env.number) :
    ExecutesUnder ub.env (fragHeader ub f) where
  parentHash := rfl
  coinbase := rfl
  difficulty := rfl
  number := by rw [← h]; rfl
  gasLimit := rfl
  time := rfl
  mixDigest := rfl
  baseFee := rfl
  excessBlobGas := rfl
  parentBeaconRoot := rfl

section

variable {vm : VM} {config : ChainConfig} {env : Env} {header header' : Header}

/-- The env determines the context. -/
theorem ExecutesUnder.context_eq (h : ExecutesUnder env header) (h' : ExecutesUnder env header') :
    newEVMBlockContext vm header' = newEVMBlockContext vm header := by
  simp only [newEVMBlockContext, h.parentHash, h.coinbase, h.number, h.time, h.difficulty,
    h.baseFee, h.excessBlobGas, h.gasLimit, h.mixDigest, h'.parentHash, h'.coinbase, h'.number,
    h'.time, h'.difficulty, h'.baseFee, h'.excessBlobGas, h'.gasLimit, h'.mixDigest]

/-- It determines the messages. -/
theorem ExecutesUnder.message_eq (h : ExecutesUnder env header) (h' : ExecutesUnder env header')
    (tx : Transaction) : transactionToMessage vm header' tx = transactionToMessage vm header tx := by
  simp only [transactionToMessage, h.number, h.time, h.baseFee, h'.number, h'.time, h'.baseFee]

/-- It determines the pre-execution. -/
theorem ExecutesUnder.preExecution_eq (h : ExecutesUnder env header)
    (h' : ExecutesUnder env header') (A : Accounts) :
    preExecution vm config header' A = preExecution vm config header A := by
  simp only [preExecution, h.context_eq h', h.number, h.time, h.parentHash, h.parentBeaconRoot,
    h'.number, h'.time, h'.parentHash, h'.parentBeaconRoot]

/-! ## Receipts and states that agree -/

/-- Two receipts that agree on all but the positions and hashes of their block. -/
structure SameReceipt (r r' : Receipt) : Prop where
  type : r'.type = r.type
  status : r'.status = r.status
  gasUsed : r'.gasUsed = r.gasUsed
  cumulativeGasUsed : r'.cumulativeGasUsed = r.cumulativeGasUsed
  bloom : r'.bloom = r.bloom
  logs : r'.logs.map Log.toLogData = r.logs.map Log.toLogData
  depositNonce : r'.depositNonce = r.depositNonce

/-- What a log is kept under and what it says. -/
def keyed (l : Log) : Hash × LogData := (l.txHash, l.toLogData)

/-- Two states of the loop that differ in positions, and in the pool, at most. -/
structure Agree (p q : Processing) : Prop where
  accounts : q.statedb.accounts = p.statedb.accounts
  logs : q.statedb.logs.map keyed = p.statedb.logs.map keyed
  usedGas : q.usedGas = p.usedGas
  gp : p.gp ≤ q.gp

/-- Stamps do not change what was logged. -/
theorem map_keyed_stamped (thash : Hash) (ti n : ℕ) (ds : List LogData) :
    (stamped thash ti n ds).map keyed = ds.map fun d => (thash, d) := by
  induction ds generalizing n with
  | nil => rfl
  | cons d ds ih =>
    rw [stamped, List.map_cons, List.map_cons, ih]
    rfl

/-- The logs of a transaction, but for their stamps. -/
theorem getLogs_eq_of_keyed {s' : StateDB} (h : s'.logs.map keyed = s.logs.map keyed)
    (hash : Hash) :
    (s'.getLogs hash).map Log.toLogData = (s.getLogs hash).map Log.toLogData := by
  have hread : ∀ t : StateDB, (t.getLogs hash).map Log.toLogData =
      ((t.logs.map keyed).filter fun kd => kd.1 = hash).map Prod.snd := by
    intro t
    rw [List.filter_map, List.map_map]
    rfl
  rw [hread, hread, h]

/-- The bloom filter is made from what was logged. -/
theorem createBloom_eq (receipts : List Receipt) : createBloom vm receipts =
    (receipts.flatMap fun r => r.logs.map Log.toLogData).foldl
      (fun bin d => d.topics.foldl vm.bloomAddTopic (vm.bloomAddAddress bin d.address)) 0 := by
  rw [← List.map_flatMap, List.foldl_map]
  rfl

/-- Receipts agree but for stamps. -/
theorem sameReceipt_makeReceipt {origin : Address} {result : ExecutionResult} {s' : StateDB}
    {n : ℕ} {bh' : Hash} {tx : Transaction} {usedGas nonce : UInt64} {root root' : Option Hash}
    (h : s'.logs.map keyed = s.logs.map keyed) :
    SameReceipt (makeReceipt vm config ctx origin result s n bh tx usedGas root nonce)
      (makeReceipt vm config ctx origin result s' n bh' tx usedGas root' nonce) where
  type := rfl
  status := rfl
  gasUsed := rfl
  cumulativeGasUsed := rfl
  bloom := by
    simp only [makeReceipt, createBloom_eq, List.flatMap_cons, List.flatMap_nil,
      getLogs_eq_of_keyed h]
  logs := getLogs_eq_of_keyed h (vm.txHash tx)
  depositNonce := rfl

/-! ## One transaction, and the loop -/

/-- A transaction that succeeds in the block succeeds in the frag, wherever it stands there. -/
theorem apply_agree (hvm : GasSound vm) {msg : Message} {n j : ℕ} {bh' : Hash} {tx : Transaction}
    {q : Processing} {receipt : Receipt} (hpq : Agree p q)
    (h : applyTransactionWithEVM vm config ctx msg n bh tx
      { p with statedb := p.statedb.setTxContext (vm.txHash tx) i } = some (.ok receipt, p')) :
    ∃ receipt' q', applyTransactionWithEVM vm config ctx msg n bh' tx
        { q with statedb := q.statedb.setTxContext (vm.txHash tx) j } =
          some (.ok receipt', q') ∧
      SameReceipt receipt receipt' ∧ Agree p' q' ∧ p'.gp ≤ p.gp := by
  obtain ⟨result, s, gp, hmsg, rfl, rfl⟩ := applyTransactionWithEVM_ok_iff.mp h
  obtain ⟨t, ht, hres, rfl, rfl⟩ := applyMessage_eq_some_iff.mp hmsg
  obtain ⟨ht', hgp⟩ := transitionDb_of_le hvm ht hres.symm hpq.gp
  have hctx : (q.statedb.setTxContext (vm.txHash tx) j).accounts =
      (p.statedb.setTxContext (vm.txHash tx) i).accounts := hpq.accounts
  rw [← hctx] at ht'
  have hlogs : ∀ ds : List LogData,
      (q.statedb.logs ++ stamped (vm.txHash tx) j q.statedb.logs.length ds).map keyed =
        (p.statedb.logs ++ stamped (vm.txHash tx) i p.statedb.logs.length ds).map keyed := by
    intro ds
    rw [List.map_append, List.map_append, hpq.logs, map_keyed_stamped, map_keyed_stamped]
  refine ⟨_, _, applyTransactionWithEVM_ok_iff.mpr ⟨result, _, _,
    applyMessage_eq_some_iff.mpr ⟨_, ht', hres, rfl, rfl⟩, rfl, rfl⟩, ?_, ?_, hgp⟩
  · unfold receiptOf
    rw [hpq.usedGas, hctx]
    exact sameReceipt_makeReceipt (hlogs t.logs)
  · refine ⟨rfl, hlogs t.logs, ?_, ?_⟩
    · exact congrArg (· + result.usedGas) hpq.usedGas
    · have hle := hpq.gp
      change t.gp ≤ t.gp + (q.gp - p.gp)
      change t.gp ≤ p.gp at hgp
      grind

/-- Transactions that succeed in the block succeed in the frag. -/
theorem processes_agree (hvm : GasSound vm) (hh : ExecutesUnder env header)
    (hh' : ExecutesUnder env header') {txs : List Transaction}
    (h : Processes vm config header bh i txs p receipts p') (bh' : Hash) (j : ℕ) {q : Processing}
    (hpq : Agree p q) :
    ∃ receipts' q', Processes vm config header' bh' j txs q receipts' q' ∧
      List.Forall₂ SameReceipt receipts receipts' ∧ Agree p' q' ∧ p'.gp ≤ p.gp := by
  induction h generalizing j q with
  | nil => exact ⟨[], q, .nil j q, .nil, hpq, UInt64.le_refl _⟩
  | @cons i tx txs p p₁ p' msg receipt receipts hmsg happly hrest ih =>
    obtain ⟨receipt', q₁, happly', hsame, hagree, hgp⟩ := apply_agree hvm hpq happly
    obtain ⟨receipts', q', hrest', hsames, hagree', hgp'⟩ := ih (j + 1) hagree
    have hmsg' : transactionToMessage vm header' tx = .ok msg := by rw [hh.message_eq hh', hmsg]
    rw [← hh.context_eq hh', hh.number, ← hh'.number] at happly'
    exact ⟨receipt' :: receipts', q', .cons hmsg' happly' hrest', .cons hsame hsames, hagree',
      UInt64.le_trans hgp' hgp⟩

/-! ## One frag -/

/-- Deposit logs can be read exactly when each of them can. -/
theorem parseDepositLogs_isOk_iff {logs : List Log} :
    (∃ requests, parseDepositLogs vm config logs = .ok requests) ↔
      ∀ d ∈ logs.map Log.toLogData, d.address = config.depositContractAddress →
        ∃ request, vm.unpackIntoDeposit d.data = .ok request := by
  induction logs with
  | nil => simp [parseDepositLogs]
  | cons l logs ih =>
    rw [List.map_cons, List.forall_mem_cons, ← ih, parseDepositLogs]
    by_cases hl : l.address = config.depositContractAddress
    · simp only [if_pos hl]
      cases hu : vm.unpackIntoDeposit l.data with
      | error => simp [hl]
      | ok =>
        cases hp : parseDepositLogs vm config logs with
        | error => simp [Except.map]
        | ok => simp [Except.map]
    · simp only [if_neg hl]
      simp [hl]

/-- The deposit logs of receipts can be read, if the fork asks for it. -/
def Readable (vm : VM) (config : ChainConfig) (env : Env) (receipts : List Receipt) : Prop :=
  config.isPrague env.number.toNat env.timestamp → ∀ r ∈ receipts,
    ∀ d ∈ r.logs.map Log.toLogData, d.address = config.depositContractAddress →
      ∃ request, vm.unpackIntoDeposit d.data = .ok request

/-- The deposit logs can be read. -/
theorem readable_iff (hh : ExecutesUnder env header) :
    (∃ requests, (if config.isPrague header.number header.time then
      parseDepositLogs vm config (receipts.flatMap Receipt.logs) else .ok []) = .ok requests) ↔
      Readable vm config env receipts := by
  unfold Readable
  rw [hh.number, hh.time]
  by_cases hp : config.isPrague env.number.toNat env.timestamp
  · simp only [hp, forall_const, if_true]
    rw [parseDepositLogs_isOk_iff, List.map_flatMap]
    simp only [List.mem_flatMap, forall_exists_index, and_imp]
    exact ⟨fun h r hr d hd => h d r hr hd, fun h d r hr hd => h r hr d hd⟩
  · simp [hp]

/-- Stamps do not matter for reading. -/
theorem Readable.same {receipts' : List Receipt} (h : Readable vm config env receipts)
    (hsame : List.Forall₂ SameReceipt receipts receipts') : Readable vm config env receipts' := by
  intro hp r' hr' d hd
  obtain ⟨i, hi⟩ := List.mem_iff_getElem?.mp hr'
  obtain ⟨hlen, hget⟩ := List.forall₂_iff_get.mp hsame
  obtain ⟨hi', rfl⟩ := List.getElem?_eq_some_iff.mp hi
  have hi₀ : i < receipts.length := by omega
  have hlogs := (hget i hi₀ hi').logs
  simp only [List.get_eq_getElem] at hlogs
  rw [hlogs] at hd
  exact h hp _ (List.getElem_mem hi₀) d hd

/-- Where the frags stand against the block: after the transactions that have brought
the block to `p`, the unsealed block is `ub` and its state `s`. -/
structure Boundary (env : Env) (p : Processing) (receipts : List Receipt) (ub : UnsealedBlock)
    (s : StateDB) : Prop where
  sameEnv : ub.env = env
  logs : s.logs.map keyed = p.statedb.logs.map keyed
  usedGas : ub.cumulativeGasUsed = p.usedGas
  gp : p.gp ≤ env.gasLimit
  receipts : List.Forall₂ SameReceipt receipts ub.receipts

/-- A block without withdrawals, as the execution of a frag builds one. -/
def NoWithdrawals (body : Body) : Prop := body.withdrawals = some []

/-- Neither the calls before the transactions nor those after them change these
accounts any more. -/
structure Settled (vm : VM) (config : ChainConfig) (env : Env) (A : Accounts) : Prop where
  preExecution : ∀ header, ExecutesUnder env header → preExecution vm config header A = A
  finalize : ∀ header body, ExecutesUnder env header → NoWithdrawals body →
    vm.finalize header body A = A

/-- A frag takes the unsealed block from one boundary to the next. -/
theorem insertNewFrag_boundary (hvm : GasSound vm) (hh : ExecutesUnder env header)
    (hub : bc.currentUnsealedBlock = some ub) (hs : bc.unsealedBlockDbState = some s)
    (hb : Boundary env p before ub s) (hnumber : f.blockNumber = env.number)
    (hlen : ub.frags.length + 1 ≤ maxInt)
    (hpre : preExecution vm config header s.accounts = p.statedb.accounts)
    (hproc : Processes vm config header bh i f.txs p receipts p')
    (hread : Readable vm config env receipts)
    (hsettled : Settled vm config env p'.statedb.accounts) :
    ∃ ub' s', insertNewFrag vm config bc f = some ({ bc with
        currentUnsealedBlock := some ub', unsealedBlockDbState := some s' }, none) ∧
      Boundary env p' (before ++ receipts) ub' s' ∧ ub'.frags = ub.frags ++ [f] ∧
      s'.accounts = p'.statedb.accounts := by
  obtain rfl := hb.sameEnv
  have hh' : ExecutesUnder ub.env (fragHeader ub f) := executesUnder_fragHeader hnumber
  -- the frag starts from the same accounts, with a pool that is full again
  have hagree : Agree p
      { statedb := { s with accounts := preExecution vm config (fragHeader ub f) s.accounts }
        gp := (fragHeader ub f).gasLimit, usedGas := ub.cumulativeGasUsed } := by
    refine ⟨?_, hb.logs, hb.usedGas, hb.gp⟩
    rw [← hpre]
    exact hh.preExecution_eq hh' s.accounts
  obtain ⟨receipts', q', hproc', hsame, hagree', hgp⟩ :=
    processes_agree hvm hh hh' hproc (vm.headerHash (fragHeader ub f)) 0 hagree
  obtain ⟨requests, hrequests⟩ := (readable_iff hh').mpr (hread.same hsame)
  have hfin : vm.finalize (fragHeader ub f) (fragBlock ub f).body q'.statedb.accounts =
      p'.statedb.accounts := by
    rw [hagree'.accounts]
    exact hsettled.finalize _ _ hh' rfl
  have hres : processWithCumulativeGas vm config (fragBlock ub f) s ub.cumulativeGasUsed =
      some (.ok ⟨receipts', requests, receipts'.flatMap Receipt.logs, q'.usedGas⟩,
        { q'.statedb with
          accounts := vm.finalize (fragHeader ub f) (fragBlock ub f).body q'.statedb.accounts },
        q'.usedGas) :=
    processWithCumulativeGas_ok_iff.mpr
      ⟨receipts', q', requests, hproc', hrequests, rfl, rfl, rfl⟩
  rw [hfin] at hres
  obtain ⟨ub', hext⟩ : ∃ ub', ub.extend f
      ⟨receipts', requests, receipts'.flatMap Receipt.logs, q'.usedGas⟩ = some ub' :=
    ⟨_, extend_eq_some_iff.mpr ⟨hlen, rfl⟩⟩
  refine ⟨ub', { q'.statedb with accounts := p'.statedb.accounts }, ?_, ?_, ?_, rfl⟩
  · simp only [insertNewFrag, hub, hs, hres, hext]
  · obtain ⟨-, rfl⟩ := extend_eq_some_iff.mp hext
    exact ⟨rfl, hagree'.logs, hagree'.usedGas, UInt64.le_trans hgp hb.gp,
      List.rel_append hb.receipts hsame⟩
  · obtain ⟨-, rfl⟩ := extend_eq_some_iff.mp hext
    rfl

/-! ## All frags -/

/-- Insert frags one by one; `none` if one of them is refused or panics.
SRCLINE: blockchain_insert.go:180-233 -/
def insertFrags (vm : VM) (config : ChainConfig) : BlockChain → List Frag → Option BlockChain :=
  runSteps fun bc f =>
    match insertNewFrag vm config bc f with
    | some (bc', none) => some bc'
    | _ => none

/-- Frags are inserted one by one. -/
theorem insertFrags_cons {bc' : BlockChain} {fs : List Frag}
    (h : insertNewFrag vm config bc f = some (bc', none)) :
    insertFrags vm config bc (f :: fs) = insertFrags vm config bc' fs := by
  simp only [insertFrags, runSteps, h, Option.bind_some]

/-- From one boundary on, all the remaining frags are inserted. -/
theorem insertFrags_boundary (hvm : GasSound vm) (hh : ExecutesUnder env header) {fs : List Frag}
    (hub : bc.currentUnsealedBlock = some ub) (hs : bc.unsealedBlockDbState = some s)
    (hb : Boundary env p before ub s) (hnumber : ∀ f ∈ fs, f.blockNumber = env.number)
    (hlen : ub.frags.length + fs.length ≤ maxInt) (hacc : s.accounts = p.statedb.accounts)
    (hproc : Processes vm config header bh i (fs.flatMap Frag.txs) p receipts p')
    (hread : Readable vm config env receipts) (hsettled : ∀ xs rs q, xs <+: fs.flatMap Frag.txs →
      Processes vm config header bh i xs p rs q → Settled vm config env q.statedb.accounts) :
    ∃ bc' ub' s', insertFrags vm config bc fs = some bc' ∧
      bc'.currentUnsealedBlock = some ub' ∧ bc'.unsealedBlockDbState = some s' ∧
      Boundary env p' (before ++ receipts) ub' s' ∧ s'.accounts = p'.statedb.accounts := by
  induction fs generalizing bc ub s i p before receipts with
  | nil =>
    cases hproc
    exact ⟨bc, ub, s, rfl, hub, hs, by simpa using hb, hacc⟩
  | cons f fs ih =>
    rw [List.flatMap_cons] at hproc hsettled
    obtain ⟨as, bs, q, rfl, hf, hfs⟩ := processes_append.mp hproc
    have hpre : preExecution vm config header s.accounts = p.statedb.accounts := by
      rw [hacc]
      exact (hsettled [] [] p List.nil_prefix (.nil i p)).preExecution header hh
    obtain ⟨ub₁, s₁, hins, hb₁, hfrags, hacc₁⟩ :=
      insertNewFrag_boundary hvm hh hub hs hb (hnumber f List.mem_cons_self)
        (by simp only [List.length_cons] at hlen; omega) hpre hf
        (fun hp r hr => hread hp r (List.mem_append_left _ hr))
        (hsettled f.txs as q (List.prefix_append _ _) hf)
    rw [insertFrags_cons hins, ← List.append_assoc]
    refine ih rfl rfl hb₁ (fun g hg => hnumber g (List.mem_cons_of_mem _ hg)) ?_ hacc₁ hfs
      (fun hp r hr => hread hp r (List.mem_append_right _ hr)) ?_
    · rw [hfrags]
      simp only [List.length_append, List.length_cons, List.length_nil] at hlen ⊢
      omega
    · intro xs rs r hxs hr
      exact hsettled (f.txs ++ xs) (as ++ rs) r ((List.prefix_append_right_inj _).mpr hxs)
        (processes_append.mpr ⟨as, rs, q, rfl, hf, hr⟩)

end

/-- The block of an Env with all the transactions of some frags. -/
structure WholeBlock (env : Env) (frags : List Frag) (block : Block) : Prop where
  executesUnder : ExecutesUnder env block.header
  transactions : block.body.transactions = frags.flatMap Frag.txs
  noWithdrawals : NoWithdrawals block.body

/-- The processing of a block after its pre-execution, before its transactions. -/
def start (vm : VM) (config : ChainConfig) (block : Block) (A : Accounts) : Processing where
  statedb := { StateDB.new A with accounts := preExecution vm config block.header A }
  gp := block.header.gasLimit
  usedGas := 0

/-- **Inserting frags refines processing the whole block.** If the block with all the transactions
is processed on the state of its parent, then opening its Env and inserting the frags one by one,
however the transactions are cut into frags, succeeds and ends with the same accounts, the same gas
and the same receipts. The repeated pre-execution and finalisation must leave alone the accounts
that the block passes through.
SRCLINE: state_processor.go:60-122, blockchain_insert.go:180-233 -/
theorem insertFrags_refines_process {vm : VM} (hvm : GasSound vm) {config : ChainConfig}
    {env : Env} {bc : BlockChain} {parent block : Block} {A : Accounts} {f : Frag}
    {fs : List Frag} {res : ProcessResult} {s : StateDB} {gas : UInt64}
    (hparent : bc.getBlockByHash env.parentHash = some parent)
    (hstate : bc.states.lookup parent.header.root = some A)
    (hwhole : WholeBlock env (f :: fs) block)
    (hnumber : ∀ g ∈ f :: fs, g.blockNumber = env.number) (hlen : (f :: fs).length ≤ maxInt)
    (hsettled : ∀ xs receipts p, xs <+: block.body.transactions →
      Processes vm config block.header (vm.headerHash block.header) 0 xs
        (start vm config block A) receipts p → Settled vm config env p.statedb.accounts)
    (hprocess : process vm config block (StateDB.new A) = some (.ok res, s, gas)) :
    ∃ bc₁ bc₂ ub s', bc.setCurrentUnsealedBlock (newUnsealedBlock env) = (bc₁, none) ∧
      insertFrags vm config bc₁ (f :: fs) = some bc₂ ∧
      bc₂.currentUnsealedBlock = some ub ∧ bc₂.unsealedBlockDbState = some s' ∧
      s'.accounts = s.accounts ∧ ub.cumulativeGasUsed = res.gasUsed ∧
      List.Forall₂ SameReceipt res.receipts ub.receipts := by
  have hh := hwhole.executesUnder
  obtain ⟨receipts, p, requests, hproc, hrequests, rfl, rfl, -⟩ :=
    processWithCumulativeGas_ok_iff.mp hprocess
  have hread : Readable vm config env receipts := (readable_iff hh).mp ⟨requests, hrequests⟩
  change Processes vm config block.header _ 0 _ (start vm config block A) receipts p at hproc
  have hend := hsettled _ receipts p List.prefix_rfl hproc
  obtain ⟨bc₁, hopen, hub₁, hs₁⟩ : ∃ bc₁,
      bc.setCurrentUnsealedBlock (newUnsealedBlock env) = (bc₁, none) ∧
      bc₁.currentUnsealedBlock = some (newUnsealedBlock env) ∧
      bc₁.unsealedBlockDbState = some (StateDB.new A) := by
    unfold BlockChain.setCurrentUnsealedBlock
    simp only [newUnsealedBlock, hparent, BlockChain.stateAt, hstate, Option.map_some]
    exact ⟨_, rfl, rfl, rfl⟩
  have hb : Boundary env (start vm config block A) [] (newUnsealedBlock env) (StateDB.new A) :=
    ⟨rfl, rfl, rfl, by rw [← hh.gasLimit]; exact UInt64.le_refl _, .nil⟩
  -- the first frag makes the pre-execution that the block makes, the others repeat it
  rw [hwhole.transactions, List.flatMap_cons] at hproc hsettled
  obtain ⟨as, bs, q, rfl, hf, hfs⟩ := processes_append.mp hproc
  obtain ⟨ub₁, s₁, hins, hb₁, hfrags, hacc₁⟩ := insertNewFrag_boundary hvm hh hub₁ hs₁ hb
    (hnumber f List.mem_cons_self) (by simp [newUnsealedBlock, maxInt]) rfl hf
    (fun hp r hr => hread hp r (List.mem_append_left _ hr))
    (hsettled f.txs as q (List.prefix_append _ _) hf)
  obtain ⟨bc₂, ub, s', hfold, hub, hs', hb₂, hacc₂⟩ : ∃ bc₂ ub s',
      insertFrags vm config bc₁ (f :: fs) = some bc₂ ∧ bc₂.currentUnsealedBlock = some ub ∧
      bc₂.unsealedBlockDbState = some s' ∧ Boundary env p (as ++ bs) ub s' ∧
      s'.accounts = p.statedb.accounts := by
    rw [insertFrags_cons hins]
    refine insertFrags_boundary hvm hh rfl rfl hb₁
      (fun g hg => hnumber g (List.mem_cons_of_mem _ hg)) ?_ hacc₁ hfs
      (fun hp r hr => hread hp r (List.mem_append_right _ hr)) ?_
    · rw [hfrags]
      simpa [newUnsealedBlock, Nat.add_comm] using hlen
    · intro xs rs r hxs hr
      exact hsettled (f.txs ++ xs) (as ++ rs) r ((List.prefix_append_right_inj _).mpr hxs)
        (processes_append.mpr ⟨as, rs, q, rfl, hf, hr⟩)
  refine ⟨bc₁, bc₂, ub, s', hopen, hfold, hub, hs', ?_, hb₂.usedGas, hb₂.receipts⟩
  rw [hacc₂]
  exact (hend.finalize _ _ hh hwhole.noWithdrawals).symm

/-- The example machine changes nothing by itself. -/
theorem settled_plainVM (env : Env) (A : Accounts) : Settled plainVM plainConfig env A where
  preExecution header h := by
    simp [preExecution, ensureCreate2Deployer, plainConfig, plainVM, h.parentBeaconRoot]
  finalize _ _ _ _ := rfl

/-- Three transactions in two frags with an empty one between them. -/
def cutFrags : List Frag :=
  [(plainFrag 1 0 false [plainTx 0 50000, plainTx 1 50000]).frag, (plainFrag 1 1 false []).frag,
    (plainFrag 1 2 true [{ plainTx 2 50000 with data := [1] }]).frag]

def cutEnv : Env := (plainEnv 1 (plainVM.headerHash genesisBlock.header) 2).env

def uncutBlock : Block where
  header := fragHeader (newUnsealedBlock cutEnv) (plainFrag 1 0 true []).frag
  body := ⟨cutFrags.flatMap Frag.txs, [], some [], []⟩

/-- A block of three transactions in two frags. -/
theorem insertFrags_refines_process_cutFrags : ∃ res s gas bc₁ bc₂ ub s',
    process plainVM plainConfig uncutBlock (StateDB.new fun _ => emptyAccount) =
        some (.ok res, s, gas) ∧ res.receipts.length = 3 ∧ gas = 63000 ∧
      (genesisChain plainVM).setCurrentUnsealedBlock (newUnsealedBlock cutEnv) = (bc₁, none) ∧
      insertFrags plainVM plainConfig bc₁ cutFrags = some bc₂ ∧
      bc₂.currentUnsealedBlock = some ub ∧ bc₂.unsealedBlockDbState = some s' ∧
      s'.accounts = s.accounts ∧ ub.cumulativeGasUsed = res.gasUsed ∧
      List.Forall₂ SameReceipt res.receipts ub.receipts := by
  have h : ((process plainVM plainConfig uncutBlock (StateDB.new fun _ => emptyAccount)).bind
      fun r => r.1.toOption.map fun res => (res.receipts.length, r.2.2)) = some (3, 63000) := by
    decide +kernel
  obtain ⟨⟨r, s, gas⟩, hprocess, h⟩ := Option.bind_eq_some_iff.mp h
  obtain ⟨res, hres, h⟩ := Option.map_eq_some_iff.mp h
  obtain ⟨hlen, hgas⟩ := Prod.mk.inj h
  cases r with
  | error => cases hres
  | ok res' =>
    obtain rfl : res' = res := Option.some.inj hres
    have hnumber : ∀ g ∈ cutFrags, g.blockNumber = cutEnv.number := by decide +kernel
    have hunder : ExecutesUnder (newUnsealedBlock cutEnv).env uncutBlock.header :=
      executesUnder_fragHeader rfl
    have hrefine := insertFrags_refines_process gasSound_plainVM
      (show (genesisChain plainVM).getBlockByHash cutEnv.parentHash = some genesisBlock by
        decide +kernel)
      (show (genesisChain plainVM).states.lookup genesisBlock.header.root =
        some fun _ => emptyAccount from rfl)
      (show WholeBlock cutEnv cutFrags uncutBlock from ⟨hunder, rfl, rfl⟩)
      hnumber (by simp [maxInt]) (fun _ _ p _ _ => settled_plainVM cutEnv p.statedb.accounts)
      hprocess
    obtain ⟨bc₁, bc₂, ub, s', hall⟩ := hrefine
    exact ⟨res', s, gas, bc₁, bc₂, ub, s', hprocess, hlen, hgas, hall⟩

end BasedOp.Analysis.FragRefinement
