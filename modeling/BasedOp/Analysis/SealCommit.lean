import BasedOp.Analysis.ChainChanges

/-!
# What a seal commits

`SealFragV0` looks a block up under the hash of the seal, compares that block with
the seal, and makes it canonical. Nothing compares it with the unsealed block, up
to the number of frags. So a seal commits the block being built exactly when it
names the hash of the header assembled from it.
-/

set_option autoImplicit false

namespace BasedOp.Analysis.SealCommit

open BasedOp.Computation Model Model.OpGeth ChainChanges

/-! ## Known blocks -/

/-- The transactions root of a block is that of its transactions. -/
def RootMatches (vm : VM) (block : Block) : Prop :=
  block.header.txHash = vm.deriveShaTxs block.body.transactions

/-- Every block a chain knows, stored or cached, has the transactions of its root. -/
structure RootsMatch (vm : VM) (bc : BlockChain) : Prop where
  stored : ∀ key block, bc.blocks.lookup key = some block → RootMatches vm block
  cached : ∀ hash block, bc.blockCache.lookup hash = some block → RootMatches vm block

/-- The root of a sealed block matches. -/
theorem rootMatches_sealedBlock (vm : VM) (config : ChainConfig) (ub : UnsealedBlock)
    (s : StateDB) : RootMatches vm (sealedBlock vm config ub s) := rfl

/-- That of a payload's block matches. -/
theorem rootMatches_executableDataToBlock (vm : VM) (header : Header) (body : Body) :
    RootMatches vm (executableDataToBlock vm header body) := rfl

variable {block : Block}

section

variable {vm : VM} {config : ChainConfig} {node : Node} {bc bc' : BlockChain}

/-- The root of a block that is found matches. -/
theorem RootsMatch.getBlock (h : RootsMatch vm bc) {hash : Hash} {number : UInt64}
    (hget : bc.getBlock hash number = some block) : RootMatches vm block := by
  unfold BlockChain.getBlock at hget
  split at hget
  · next block' hcache =>
    obtain rfl := Option.some.inj hget
    exact h.cached hash _ hcache
  · exact h.stored _ _ hget

/-- So does that of one found by its hash. -/
theorem RootsMatch.getBlockByHash (h : RootsMatch vm bc) {hash : Hash}
    (hget : bc.getBlockByHash hash = some block) : RootMatches vm block := by
  unfold BlockChain.getBlockByHash at hget
  split at hget
  · cases hget
  · exact h.getBlock hget

/-- The open block does not matter. -/
theorem RootsMatch.reset (h : RootsMatch vm bc) : RootsMatch vm bc.resetCurrentUnsealedBlock :=
  ⟨h.stored, h.cached⟩

/-- A matching block may come in. -/
theorem RootsMatch.change (h : RootsMatch vm bc) (hblock : RootMatches vm block)
    (hc : Change vm block bc bc') : RootsMatch vm bc' := by
  refine ⟨?_, by rw [hc.blockCache]; exact h.cached⟩
  cases hc with
  | states => exact h.stored
  | head => exact h.stored
  | store =>
    intro key block' hl
    by_cases hkey : key = (vm.headerHash block.header, block.header.numberU64)
    · subst hkey
      rw [AList.lookup_insert, Option.some.injEq] at hl
      exact hl ▸ hblock
    · rw [AList.lookup_insert_ne hkey] at hl
      exact h.stored key block' hl

/-- A call inserts no other block than the one assembled from the frags. -/
theorem RootsMatch.serve {c : Call} {response : Response} (h : RootsMatch vm bc)
    (hcall : serve vm config node bc c = some (bc', response)) : RootsMatch vm bc' := by
  cases served_of_serve hcall with
  | failed => exact ⟨h.stored, h.cached⟩
  | sealFailed c err ub s hchange =>
    exact h.reset.change (rootMatches_sealedBlock vm config ub s) hchange
  | opened => exact ⟨h.stored, h.cached⟩
  | accepted => exact ⟨h.stored, h.cached⟩
  | @acceptedLast f ub ub' s s' res bc' hub hs hacc hlast hchange =>
    have hset : RootsMatch vm { bc with
        currentUnsealedBlock := some ub', unsealedBlockDbState := some s' } :=
      ⟨h.stored, h.cached⟩
    exact hset.change (rootMatches_sealedBlock vm config ub' s') hchange
  | canonical => exact ⟨h.stored, h.cached⟩

/-- Every event keeps the roots of the known blocks right. -/
theorem RootsMatch.chainStep (bc : BlockChain) (e : ChainEvent) (bc' : BlockChain)
    (h : RootsMatch vm bc) (hstep : chainStep vm config node bc e = some bc') :
    RootsMatch vm bc' := by
  rcases chainStep_cases hstep with ⟨c, response, -, hcall⟩ | ⟨header, body, -, hchange⟩ |
    ⟨hash, block, -, hget, hchange⟩ | ⟨cache, states, rfl, hcache⟩
  · exact h.serve hcall
  · exact h.change (rootMatches_executableDataToBlock vm header body) hchange
  · exact h.change (h.getBlockByHash hget) hchange
  · refine ⟨h.stored, ?_⟩
    intro hash block hl
    rcases hcache hash block hl with hold | ⟨number, hstored⟩
    · exact h.cached hash block hold
    · exact h.stored _ block hstored

/-! ## The block being built -/

/-- A block is the one that `SealBlock` produced from an unsealed block.
SRCLINE: engine/types.go:423-463 -/
structure SealedFrom (vm : VM) (config : ChainConfig) (ub : UnsealedBlock) (s : StateDB)
    (block : Block) : Prop where
  header : block.header = (sealedBlock vm config ub s).header
  number : block.header.number = ub.env.number.toNat
  parentHash : block.header.parentHash = ub.env.parentHash
  transactions : block.body.transactions = ub.transactions
  isLast : ∃ f, ub.frags.getLast? = some f ∧ f.isLast = true

/-- A seal names the block that is assembled from an unsealed block, and this has got
its last frag. -/
structure Names (vm : VM) (config : ChainConfig) (sl : Seal) (ub : UnsealedBlock) (s : StateDB) :
    Prop where
  blockHash : sl.blockHash = vm.headerHash (sealedBlock vm config ub s).header
  isLast : ∃ f, ub.frags.getLast? = some f ∧ f.isLast = true

/-- The hashes tell a known block from the one assembled from an unsealed block. -/
structure NoCollision (vm : VM) (config : ChainConfig) (ub : UnsealedBlock) (s : StateDB)
    (block : Block) : Prop where
  header : vm.headerHash block.header = vm.headerHash (sealedBlock vm config ub s).header →
    block.header = (sealedBlock vm config ub s).header
  transactions : vm.deriveShaTxs block.body.transactions = vm.deriveShaTxs ub.transactions →
    block.body.transactions = ub.transactions

/-- A seal that passes validation names the hash of the block it was looked up under. -/
theorem validateSealFragV0_eq_none {sl : SignedSeal}
    (h : validateSealFragV0 vm bc block sl = none) :
    vm.headerHash block.header = sl.sealData.blockHash := by
  unfold validateSealFragV0 at h
  dsimp only at h
  split at h
  · cases h
  · split at h
    · cases h
    · next hhash => exact not_not.mp hhash

end

/-- **A seal commits the block being built exactly when it names it.** Whatever happened to the
chain before, a `SealFragV0` that returns `VALID` makes canonical the block known under the hash of
the seal; that is the block sealed from the open unsealed block if and only if the seal names the
hash of the header assembled from the open block and this has got its last frag.
SRCLINE: catalyst/api.go:1432-1492 -/
theorem sealedFrom_iff_names (vm : VM) (config : ChainConfig) (node : Node)
    {bc₀ bc bc' : BlockChain} {events : List ChainEvent} {sl : SignedSeal}
    (hroots : RootsMatch vm bc₀)
    (hrun : runSteps (chainStep vm config node) bc₀ events = some bc)
    (hfree : ∀ ub s block, bc.currentUnsealedBlock = some ub → bc.unsealedBlockDbState = some s →
      bc.getBlock sl.sealData.blockHash sl.sealData.blockNumber = some block →
      NoCollision vm config ub s block)
    (hvalid : sealFragV0 vm node bc sl = (bc', .ok ())) :
    ∃ block, bc.getBlock sl.sealData.blockHash sl.sealData.blockNumber = some block ∧
      bc'.currentBlock = block.header ∧
      ((∃ ub s, bc.currentUnsealedBlock = some ub ∧ bc.unsealedBlockDbState = some s ∧
          SealedFrom vm config ub s block) ↔
        ∃ ub s, bc.currentUnsealedBlock = some ub ∧ bc.unsealedBlockDbState = some s ∧
          Names vm config sl.sealData ub s) := by
  have hmatch : RootsMatch vm bc := runSteps_induction RootsMatch.chainStep hroots hrun
  have hserved : Served vm config bc (.sealFrag sl) bc' (.ok ()) := served_sealFragV0 hvalid
  cases hserved with
  | @canonical _ block states hget hval =>
    have hhash := validateSealFragV0_eq_none hval
    refine ⟨block, hget, rfl, ?_⟩
    constructor
    · rintro ⟨ub, s, hub, hs, hsealed⟩
      refine ⟨ub, s, hub, hs, ?_, hsealed.isLast⟩
      rw [← hhash, hsealed.header]
    · rintro ⟨ub, s, hub, hs, hnames⟩
      have hno := hfree ub s block hub hs hget
      have hheader := hno.header (hhash.trans hnames.blockHash)
      have hroot : vm.deriveShaTxs block.body.transactions = vm.deriveShaTxs ub.transactions := by
        rw [← hmatch.getBlock hget, hheader]
        rfl
      refine ⟨ub, s, hub, hs, hheader, ?_, ?_, hno.transactions hroot, hnames.isLast⟩
      · rw [hheader]
        rfl
      · rw [hheader]
        rfl

/-! ## A replayed seal -/

def sealOf (vm : VM) (block : Block) (totalFrags : UInt64) : SignedSeal where
  signature := 0
  sealData :=
    { totalFrags := totalFrags
      blockNumber := block.header.numberU64
      gasUsed := block.header.gasUsed
      gasLimit := block.header.gasLimit
      parentHash := block.header.parentHash
      transactionsRoot := block.header.txHash
      receiptsRoot := block.header.receiptHash
      stateRoot := block.header.root
      blockHash := vm.headerHash block.header }

/-- The block that is assembled from the open unsealed block. -/
def assembled (vm : VM) (config : ChainConfig) (bc : BlockChain) : Option Block :=
  match bc.currentUnsealedBlock, bc.unsealedBlockDbState with
  | some ub, some s => some (sealedBlock vm config ub s)
  | _, _ => none

/-- Open block 1 and give it its only frag. -/
def firstBlockCalls : List ChainEvent :=
  [.call (.env (plainEnv 1 (plainVM.headerHash genesisBlock.header) 2)),
    .call (.newFrag (plainFrag 1 0 true [plainTx 0 50000]))]

def firstBlock : Block :=
  ((runSteps (chainStep plainVM plainConfig plainNode) (genesisChain plainVM)
    firstBlockCalls).bind (assembled plainVM plainConfig)).getD genesisBlock

def firstSeal : SignedSeal := sealOf plainVM firstBlock 1

/-- Seal block 1, open block 2 and give it a first frag, which is not the last. -/
def replayedCalls : List ChainEvent :=
  firstBlockCalls ++ [.call (.sealFrag firstSeal),
    .call (.env (plainEnv 2 (plainVM.headerHash firstBlock.header) 4)),
    .call (.newFrag (plainFrag 2 0 false [plainTx 1 50000]))]

/-- The roots of the example match. -/
theorem rootsMatch_genesisChain : RootsMatch plainVM (genesisChain plainVM) where
  stored key block h := by
    unfold genesisChain at h
    by_cases hkey : key = (plainVM.headerHash genesisBlock.header, 0)
    · rw [hkey, AList.lookup_insert, Option.some.injEq] at h
      rw [← h]
      unfold RootMatches
      decide +kernel
    · rw [AList.lookup_insert_ne hkey, AList.lookup_empty] at h
      cases h
  cached hash block h := by simp [genesisChain] at h

/-- The seal of block 1 is accepted once more while block 2 is open, and commits block 1. -/
theorem replayed_seal_commits_older_block : ∃ bc bc',
    runSteps (chainStep plainVM plainConfig plainNode) (genesisChain plainVM) replayedCalls =
        some bc ∧
      sealFragV0 plainVM plainNode bc firstSeal = (bc', .ok ()) ∧
      bc.currentUnsealedBlock.map (fun ub => ub.env.number) = some 2 ∧
      bc'.currentBlock = firstBlock.header ∧
      ¬ ∃ ub s block, bc.currentUnsealedBlock = some ub ∧ bc.unsealedBlockDbState = some s ∧
        bc'.currentBlock = block.header ∧ SealedFrom plainVM plainConfig ub s block := by
  have h : ((runSteps (chainStep plainVM plainConfig plainNode) (genesisChain plainVM)
      replayedCalls).map fun bc =>
        (bc.currentUnsealedBlock.map (fun ub => ub.env.number),
          (sealFragV0 plainVM plainNode bc firstSeal).2,
          (sealFragV0 plainVM plainNode bc firstSeal).1.currentBlock)) =
      some (some 2, .ok (), firstBlock.header) := by decide +kernel
  obtain ⟨bc, hrun, h⟩ := Option.map_eq_some_iff.mp h
  obtain ⟨hub, h⟩ := Prod.mk.inj h
  obtain ⟨hok, hhead⟩ := Prod.mk.inj h
  refine ⟨bc, _, hrun, Prod.ext rfl hok, hub, hhead, ?_⟩
  rintro ⟨ub, s, block, hopen, -, hblock, hsealed⟩
  rw [hopen, Option.map_some, Option.some.injEq] at hub
  have hnumber := hsealed.number
  rw [← hblock, hhead, hub] at hnumber
  revert hnumber
  decide +kernel

/-- The seal of block 1 commits block 1 when block 1 is open. -/
theorem sealedFrom_iff_names_firstSeal : ∃ bc bc' block ub s,
    runSteps (chainStep plainVM plainConfig plainNode) (genesisChain plainVM) firstBlockCalls =
        some bc ∧
      sealFragV0 plainVM plainNode bc firstSeal = (bc', .ok ()) ∧
      bc.currentUnsealedBlock = some ub ∧ bc.unsealedBlockDbState = some s ∧
      bc'.currentBlock = block.header ∧ SealedFrom plainVM plainConfig ub s block := by
  have h : ((runSteps (chainStep plainVM plainConfig plainNode) (genesisChain plainVM)
      firstBlockCalls).bind fun bc => (assembled plainVM plainConfig bc).map fun block =>
        (block, (sealFragV0 plainVM plainNode bc firstSeal).2,
          bc.getBlock firstSeal.sealData.blockHash firstSeal.sealData.blockNumber,
          bc.currentUnsealedBlock.bind fun ub => ub.frags.getLast?.map Frag.isLast)) =
      some (firstBlock, .ok (), some firstBlock, some true) := by decide +kernel
  obtain ⟨bc, hrun, h⟩ := Option.bind_eq_some_iff.mp h
  obtain ⟨block, hasm, h⟩ := Option.map_eq_some_iff.mp h
  simp only [Prod.mk.injEq] at h
  obtain ⟨hbuilt, hok, hget, hlast⟩ := h
  rw [hbuilt] at hasm
  unfold assembled at hasm
  split at hasm
  · next ub s hub hs =>
    have hblock := Option.some.inj hasm
    obtain ⟨u, hu, hlast⟩ := Option.bind_eq_some_iff.mp hlast
    obtain rfl : ub = u := Option.some.inj (hub.symm.trans hu)
    have hnames : Names plainVM plainConfig firstSeal.sealData ub s := by
      refine ⟨?_, Option.map_eq_some_iff.mp hlast⟩
      rw [hblock]
      rfl
    obtain ⟨block, hget', hhead, hiff⟩ := sealedFrom_iff_names plainVM plainConfig plainNode
      rootsMatch_genesisChain hrun
      (by
        intro ub' s' block hub' hs' hblock'
        obtain rfl : ub = ub' := Option.some.inj (hub.symm.trans hub')
        obtain rfl : s = s' := Option.some.inj (hs.symm.trans hs')
        obtain rfl : firstBlock = block := Option.some.inj (hget.symm.trans hblock')
        rw [← hblock]
        exact ⟨fun _ => rfl, fun _ => rfl⟩)
      (show sealFragV0 plainVM plainNode bc firstSeal =
        ((sealFragV0 plainVM plainNode bc firstSeal).1, .ok ()) from Prod.ext rfl hok)
    obtain ⟨ub', s', hub', hs', hsealed⟩ := hiff.mpr ⟨ub, s, hub, hs, hnames⟩
    exact ⟨bc, _, block, ub', s', hrun, Prod.ext rfl hok, hub', hs', hhead, hsealed⟩
  · cases hasm

end BasedOp.Analysis.SealCommit
