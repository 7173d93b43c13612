import BasedOp.Analysis.ChainChanges
import BasedOp.Analysis.Processing

/-!
# The invariant of the unsealed block

An open block has the frags `0, 1, …` of its own number, of which only the last
may be an `IsLast` frag, and one receipt for each of their transactions. The
invariant holds after every call of the preconfirmation api, whatever the calls
before it were, and whatever the ordinary chain did in between.
-/

set_option autoImplicit false

namespace BasedOp.Analysis.UnsealedInvariant

open BasedOp.Computation Model Model.OpGeth
open ChainChanges Processing

/-- A well formed unsealed block. -/
structure WellFormed (vm : VM) (ub : UnsealedBlock) : Prop where
  seq : ∀ (i : ℕ) (f : Frag), ub.frags[i]? = some f → f.seq.toNat = i
  number : ∀ f ∈ ub.frags, f.blockNumber = ub.env.number
  lastSequenceNumber_none : ub.lastSequenceNumber = none ↔ ub.frags = []
  lastSequenceNumber_some : ∀ n, ub.lastSequenceNumber = some n →
    n.toNat = ub.frags.length - 1
  isLast : ∀ (i : ℕ) (f : Frag), ub.frags[i]? = some f → f.isLast = true → i = ub.frags.length - 1
  receipts_length : ub.receipts.length = ub.transactions.length
  receipts_txHash : ub.receipts.map Receipt.txHash = ub.transactions.map vm.txHash
  gasUsed : ub.cumulativeGasUsed = (ub.receipts.map Receipt.gasUsed).sum
  lastReceipt : ∀ r, ub.receipts.getLast? = some r → r.cumulativeGasUsed = ub.cumulativeGasUsed
  frags_length : ub.frags.length ≤ maxInt

/-- A new block is well formed. -/
theorem wellFormed_newUnsealedBlock (vm : VM) (e : Env) : WellFormed vm (newUnsealedBlock e) where
  seq i f h := by simp [newUnsealedBlock] at h
  number f h := by simp [newUnsealedBlock] at h
  lastSequenceNumber_none := by simp [newUnsealedBlock]
  lastSequenceNumber_some n h := by simp [newUnsealedBlock] at h
  isLast i f h := by simp [newUnsealedBlock] at h
  receipts_length := by simp [newUnsealedBlock, UnsealedBlock.transactions]
  receipts_txHash := by simp [newUnsealedBlock, UnsealedBlock.transactions]
  gasUsed := by simp [newUnsealedBlock]
  lastReceipt r h := by simp [newUnsealedBlock] at h
  frags_length := by simp [newUnsealedBlock]

section

variable {vm : VM} {config : ChainConfig} {node : Node} {bc bc' : BlockChain}
  {ub ub' : UnsealedBlock} {s s' : StateDB} {f : Frag} {res : ProcessResult}

/-! ## The next frag -/

/-- The last frag is at its number. -/
theorem WellFormed.getElem?_last (h : WellFormed vm ub) {n : UInt64}
    (hn : ub.lastSequenceNumber = some n) :
    ∃ g, ub.frags[n.toNat]? = some g ∧ n.toNat + 1 = ub.frags.length ∧ g.seq = n := by
  have hne : ub.frags ≠ [] := by
    intro hnil
    rw [h.lastSequenceNumber_none.mpr hnil] at hn
    cases hn
  have hpos := List.length_pos_iff.mpr hne
  have hlast := h.lastSequenceNumber_some n hn
  have hlt : n.toNat < ub.frags.length := by omega
  refine ⟨ub.frags[n.toNat], List.getElem?_eq_getElem hlt, by omega, ?_⟩
  apply UInt64.toNat_inj.mp
  exact h.seq _ _ (List.getElem?_eq_getElem hlt)

/-- `IsNextFrag` never indexes out of range. -/
theorem WellFormed.isNextFrag_isSome (h : WellFormed vm ub) (f : Frag) :
    (ub.isNextFrag f).isSome := by
  unfold UnsealedBlock.isNextFrag
  cases hn : ub.lastSequenceNumber with
  | none => rfl
  | some =>
    obtain ⟨g, hg, -, -⟩ := h.getElem?_last hn
    simp only [hg]
    split
    · rfl
    · rfl

/-- The next frag continues the sequence, and nothing comes after an `IsLast` frag. -/
theorem WellFormed.next (h : WellFormed vm ub) (hnext : ub.isNextFrag f = some true) :
    f.seq.toNat = ub.frags.length ∧ ∀ g ∈ ub.frags, g.isLast = false := by
  unfold UnsealedBlock.isNextFrag at hnext
  cases hn : ub.lastSequenceNumber with
  | none =>
    have hnil := h.lastSequenceNumber_none.mp hn
    simp only [hn, Frag.isFirst, Option.some.injEq, beq_iff_eq] at hnext
    simp [hnil, hnext]
  | some n =>
    obtain ⟨g, hg, hlen, hseq⟩ := h.getElem?_last hn
    simp only [hn, hg] at hnext
    split at hnext
    · cases Option.some.inj hnext
    next hlast =>
    constructor
    · have hmax := h.frags_length
      simp only [Option.some.injEq, beq_iff_eq] at hnext
      -- the length of the slice keeps the sequence number from wrapping around
      rw [← hnext, hseq, UInt64.toNat_add]
      simp only [maxInt] at hmax
      have hone : (1 : UInt64).toNat = 1 := rfl
      omega
    · intro k hk
      obtain ⟨i, hi⟩ := List.mem_iff_getElem?.mp hk
      cases hkl : k.isLast with
      | false => rfl
      | true =>
        have hi' := h.isLast i k hi hkl
        rw [hi', show ub.frags.length - 1 = n.toNat by omega, hg] at hi
        obtain rfl := Option.some.inj hi
        exact absurd hkl hlast

/-! ## Taking a frag in -/

/-- What `extend` makes of an unsealed block. -/
theorem extend_eq_some_iff : ub.extend f res = some ub' ↔
    ub.frags.length + 1 ≤ maxInt ∧ ub' = { ub with
      cumulativeBlobGasUsed :=
        res.receipts.foldl (fun gas receipt => gas + receipt.blobGasUsed) ub.cumulativeBlobGasUsed
      frags := ub.frags ++ [f]
      lastSequenceNumber := some f.seq
      receipts := ub.receipts ++ res.receipts
      logs := ub.logs ++ res.logs
      requests := ub.requests ++ res.requests
      cumulativeGasUsed := res.gasUsed } := by
  unfold UnsealedBlock.extend goAppend
  by_cases hlen : ub.frags.length + 1 ≤ maxInt
  · simp [hlen, eq_comm]
  · simp [hlen]

/-- A frag keeps the env. -/
theorem env_eq_of_accepts (hacc : Accepts vm config f ub s res ub' s') : ub'.env = ub.env := by
  obtain ⟨-, rfl⟩ := extend_eq_some_iff.mp hacc.extended
  rfl

/-- A frag is old or the last. -/
theorem getElem?_frags_append {i : ℕ} {frags : List Frag} {g : Frag}
    (hg : (frags ++ [f])[i]? = some g) : frags[i]? = some g ∨ (i = frags.length ∧ g = f) := by
  rw [List.getElem?_append] at hg
  split at hg
  · exact .inl hg
  · next hi =>
    cases hk : i - frags.length with
    | zero =>
      rw [hk, List.getElem?_cons_zero, Option.some.injEq] at hg
      exact .inr ⟨by omega, hg.symm⟩
    | succ => simp [hk] at hg

/-- A frag that is taken in keeps the block well formed. -/
theorem WellFormed.accepts (h : WellFormed vm ub) (hacc : Accepts vm config f ub s res ub' s') :
    WellFormed vm ub' := by
  obtain ⟨hseq, hnotLast⟩ := h.next hacc.next
  obtain ⟨hlen, hub'⟩ := extend_eq_some_iff.mp hacc.extended
  have hfrags : ub'.frags = ub.frags ++ [f] := by rw [hub']
  have hlastSeq : ub'.lastSequenceNumber = some f.seq := by rw [hub']
  have hreceipts : ub'.receipts = ub.receipts ++ res.receipts := by rw [hub']
  have hgas : ub'.cumulativeGasUsed = res.gasUsed := by rw [hub']
  obtain ⟨gas, hproc⟩ := hacc.processed
  obtain ⟨receipts, p, requests, hp, -, rfl, -, -⟩ := processWithCumulativeGas_ok_iff.mp hproc
  have htxs : ub'.transactions = ub.transactions ++ f.txs := by
    simp [UnsealedBlock.transactions, hfrags]
  have hhash := hp.map_txHash
  have hused := hp.usedGas
  have hmap : ub'.receipts.map Receipt.txHash = ub'.transactions.map vm.txHash := by
    rw [hreceipts, htxs, List.map_append, List.map_append, h.receipts_txHash, hhash]
    rfl
  constructor
  case seq =>
    intro i g hg
    rw [hfrags] at hg
    rcases getElem?_frags_append hg with hold | ⟨rfl, rfl⟩
    · exact h.seq i g hold
    · exact hseq
  case number =>
    intro g hg
    rw [hfrags, List.mem_append, List.mem_singleton] at hg
    rw [env_eq_of_accepts hacc]
    rcases hg with hold | rfl
    · exact h.number g hold
    · exact hacc.number
  case lastSequenceNumber_none => simp [hlastSeq, hfrags]
  case lastSequenceNumber_some =>
    intro n hn
    rw [hlastSeq, Option.some.injEq] at hn
    rw [← hn, hfrags, hseq]
    simp
  case isLast =>
    intro i g hg hgl
    rw [hfrags] at hg
    rcases getElem?_frags_append hg with hold | ⟨rfl, rfl⟩
    · rw [hnotLast g (List.mem_of_getElem? hold)] at hgl
      cases hgl
    · simp [hfrags]
  case receipts_length => simpa using congrArg List.length hmap
  case receipts_txHash => exact hmap
  case gasUsed =>
    rw [hgas, hreceipts, List.map_append, List.sum_append, ← h.gasUsed]
    exact hused
  case lastReceipt =>
    intro r hr
    rw [hreceipts] at hr
    rw [hgas]
    exact hp.getLast?_append_cumulativeGasUsed h.lastReceipt hr
  case frags_length => simpa [hfrags] using hlen

/-! ## Calls and runs -/

/-- The invariant of the preconfirmation state of a chain. -/
structure Invariant (vm : VM) (bc : BlockChain) : Prop where
  state : bc.currentUnsealedBlock = none ↔ bc.unsealedBlockDbState = none
  wellFormed : ∀ ub, bc.currentUnsealedBlock = some ub → WellFormed vm ub

/-- The invariant holds if no block is open. -/
theorem invariant_of_closed (h : bc.currentUnsealedBlock = none)
    (hs : bc.unsealedBlockDbState = none) : Invariant vm bc where
  state := ⟨fun _ => hs, fun _ => h⟩
  wellFormed ub hub := by
    rw [h] at hub
    cases hub

/-- It holds after a reset. -/
theorem invariant_reset (vm : VM) (bc : BlockChain) :
    Invariant vm bc.resetCurrentUnsealedBlock :=
  invariant_of_closed rfl rfl

/-- It holds if a well-formed block is open. -/
theorem invariant_of_open (h : bc.currentUnsealedBlock = some ub)
    (hs : bc.unsealedBlockDbState = some s) (hub : WellFormed vm ub) : Invariant vm bc where
  state := by simp [h, hs]
  wellFormed ub' hub' := by
    rw [h, Option.some.injEq] at hub'
    exact hub' ▸ hub

/-- It is about the open block only. -/
theorem Invariant.congr (h : Invariant vm bc)
    (hub : bc'.currentUnsealedBlock = bc.currentUnsealedBlock)
    (hs : bc'.unsealedBlockDbState = bc.unsealedBlockDbState) : Invariant vm bc' where
  state := by rw [hub, hs]; exact h.state
  wellFormed ub' hub' := h.wellFormed ub' (hub ▸ hub')

/-- Changes of the chain keep it. -/
theorem Invariant.change {block : Block} (h : Invariant vm bc) (hc : Change vm block bc bc') :
    Invariant vm bc' :=
  h.congr hc.unsealed.1 hc.unsealed.2

/-- Every call establishes the invariant, and an error closes the block. -/
theorem serve_invariant {c : Call} {response : Response}
    (h : bc.currentUnsealedBlock = none ∨ Invariant vm bc)
    (hcall : serve vm config node bc c = some (bc', response)) :
    Invariant vm bc' ∧ ∀ err, response = .error err → bc'.currentUnsealedBlock = none := by
  have hwf : ∀ ub, bc.currentUnsealedBlock = some ub → WellFormed vm ub := by
    intro ub hub
    rcases h with h | h
    · rw [h] at hub
      cases hub
    · exact h.wellFormed ub hub
  cases served_of_serve hcall with
  | failed => exact ⟨invariant_reset vm _, fun _ _ => rfl⟩
  | sealFailed c err ub s hchange =>
    exact ⟨(invariant_reset vm bc).change hchange, fun _ _ => hchange.unsealed.1⟩
  | @opened e =>
    refine ⟨invariant_of_open rfl rfl (wellFormed_newUnsealedBlock vm e.env), ?_⟩
    intro err herr
    cases herr
  | accepted hub hs hacc =>
    refine ⟨invariant_of_open rfl rfl ((hwf _ hub).accepts hacc), ?_⟩
    intro err herr
    cases herr
  | acceptedLast hub hs hacc _ hchange =>
    refine ⟨(invariant_of_open rfl rfl ((hwf _ hub).accepts hacc)).change hchange, ?_⟩
    intro err herr
    cases herr
  | canonical => exact ⟨invariant_reset vm _, fun _ _ => rfl⟩

/-- One event keeps a chain that is closed or satisfies the invariant so. -/
theorem chainStep_invariant (bc : BlockChain) (e : ChainEvent) (bc' : BlockChain)
    (h : bc.currentUnsealedBlock = none ∨ Invariant vm bc)
    (hstep : chainStep vm config node bc e = some bc') :
    bc'.currentUnsealedBlock = none ∨ Invariant vm bc' := by
  have hframe : bc'.currentUnsealedBlock = bc.currentUnsealedBlock →
      bc'.unsealedBlockDbState = bc.unsealedBlockDbState →
      bc'.currentUnsealedBlock = none ∨ Invariant vm bc' := by
    intro hub hs
    rcases h with h | h
    · exact .inl (hub.trans h)
    · exact .inr (h.congr hub hs)
  rcases chainStep_cases hstep with ⟨c, response, -, hcall⟩ | ⟨header, body, -, hchange⟩ |
    ⟨hash, block, -, -, hchange⟩ | ⟨cache, states, rfl, -⟩
  · exact .inr (serve_invariant h hcall).1
  · exact hframe hchange.unsealed.1 hchange.unsealed.2
  · exact hframe hchange.unsealed.1 hchange.unsealed.2
  · exact hframe rfl rfl

end

/-- On a chain that starts with no open block, an open block has its state. -/
theorem exists_state_of_open {vm : VM} {config : ChainConfig} {node : Node} {bc₀ bc : BlockChain}
    {events : List ChainEvent} {ub : UnsealedBlock} (hclosed : bc₀.currentUnsealedBlock = none)
    (hrun : runSteps (chainStep vm config node) bc₀ events = some bc)
    (hub : bc.currentUnsealedBlock = some ub) : ∃ s, bc.unsealedBlockDbState = some s := by
  have hinv : bc.currentUnsealedBlock = none ∨ Invariant vm bc :=
    runSteps_induction (I := fun bc => bc.currentUnsealedBlock = none ∨ Invariant vm bc)
      chainStep_invariant (.inl hclosed) hrun
  rcases hinv with hnone | hinv
  · rw [hnone] at hub
    cases hub
  · cases hs : bc.unsealedBlockDbState with
    | none =>
      rw [hinv.state.mpr hs] at hub
      cases hub
    | some s => exact ⟨s, rfl⟩

/-- **After every call the unsealed block is well formed.** On a chain that starts with no open
block, every call, whatever calls and events came before it, leaves the block open exactly when its
state is set, leaves an open block well formed, so that the next `IsNextFrag` does not panic, and
leaves no block open if it returns an error.
SRCLINE: catalyst/api.go:1341-1559, blockchain_insert.go:180-233 -/
theorem invariant_after_call (vm : VM) (config : ChainConfig) (node : Node)
    {bc bc₁ bc₂ : BlockChain} {events : List ChainEvent} {c : Call} {response : Response}
    (hclosed : bc.currentUnsealedBlock = none)
    (hrun : runSteps (chainStep vm config node) bc events = some bc₁)
    (hcall : serve vm config node bc₁ c = some (bc₂, response)) :
    Invariant vm bc₂ ∧
      (∀ ub, bc₂.currentUnsealedBlock = some ub → ∀ f, (ub.isNextFrag f).isSome) ∧
      (∀ err, response = .error err → bc₂.currentUnsealedBlock = none) := by
  have hbefore : bc₁.currentUnsealedBlock = none ∨ Invariant vm bc₁ :=
    runSteps_induction (I := fun bc => bc.currentUnsealedBlock = none ∨ Invariant vm bc)
      chainStep_invariant (.inl hclosed) hrun
  obtain ⟨hinv, herr⟩ := serve_invariant hbefore hcall
  exact ⟨hinv, fun ub hub f => (hinv.wellFormed ub hub).isNextFrag_isSome f, herr⟩

/-- The calls that open block 1 and give it a first frag of two transactions. -/
def openingCalls : List ChainEvent :=
  [.call (.env (plainEnv 1 (plainVM.headerHash genesisBlock.header) 2)),
    .call (.newFrag (plainFrag 1 0 false [plainTx 0 50000, plainTx 1 50000]))]

/-- The invariant after an opened block has been given its last frag. -/
theorem invariant_after_call_lastFrag : ∃ bc₁ bc₂,
    runSteps (chainStep plainVM plainConfig plainNode) (genesisChain plainVM) openingCalls =
        some bc₁ ∧
      serve plainVM plainConfig plainNode bc₁
        (.newFrag (plainFrag 1 1 true [plainTx 2 50000])) = some (bc₂, .ok ()) ∧
      bc₂.currentUnsealedBlock.map (fun ub => (ub.frags.length, ub.cumulativeGasUsed)) =
        some (2, 63000) ∧
      Invariant plainVM bc₂ := by
  have h : ((runSteps (chainStep plainVM plainConfig plainNode) (genesisChain plainVM)
      openingCalls).bind fun bc₁ => (serve plainVM plainConfig plainNode bc₁
        (.newFrag (plainFrag 1 1 true [plainTx 2 50000]))).map fun r =>
          (r.2, r.1.currentUnsealedBlock.map (fun ub => (ub.frags.length, ub.cumulativeGasUsed)))) =
      some (.ok (), some (2, 63000)) := by decide +kernel
  obtain ⟨bc₁, hrun, h⟩ := Option.bind_eq_some_iff.mp h
  obtain ⟨⟨bc₂, response⟩, hcall, h⟩ := Option.map_eq_some_iff.mp h
  obtain ⟨rfl, hub⟩ := Prod.mk.inj h
  exact ⟨bc₁, bc₂, hrun, hcall, hub,
    (invariant_after_call plainVM plainConfig plainNode rfl hrun hcall).1⟩

end BasedOp.Analysis.UnsealedInvariant
