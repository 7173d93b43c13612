import BasedOp.Analysis.BlockTotals
import Mathlib.Data.List.DropRight

/-!
# The receipts of a block

When a frag is cut a receipt of each of its transactions is stored for the rpc server, and
when the block is sealed a receipt of each of its transactions is made for the root of the
receipts. Both say the same of the gas and of the logs. The stored ones all say that the
transaction went well, and number the logs of each transaction from zero on, so that they
agree with the others and number the logs of the block if and only if every transaction
went well and at most one of them has logs.
-/

set_option autoImplicit false

namespace BasedOp.Analysis.Receipts

open BasedOp.Computation Model Model.Gateway
open SequencerSteps SequencerFrames
open StateIds BlockTotals BlockContents
open GossipStream (blockTxs payloads)

variable {S : Type} {crates : Crates S} {s s' : Sequencer S}

/-! ## What is stored when a frag is cut -/

section

variable (crates) (blockNumber blockTimestamp baseFee : UInt64)

/-- The receipts that are stored of transactions, after the gas and the transactions of the
block before them.
SRCLINE: frag_sequence.rs:51-62 -/
def confirmedFrom : UInt64 → ℕ → List SimulatedTx → List OpTransactionReceipt
  | _, _, [] => []
  | gasUsed, txId, t :: ts =>
    t.opTxReceipt crates (gasUsed + t.gasUsed) blockNumber blockTimestamp baseFee
      (UInt64.ofNat txId) :: confirmedFrom (gasUsed + t.gasUsed) (txId + 1) ts

/-- The receipts of two parts. -/
theorem confirmedFrom_append (gasUsed : UInt64) (txId : ℕ) (xs ys : List SimulatedTx) :
    confirmedFrom crates blockNumber blockTimestamp baseFee gasUsed txId (xs ++ ys) =
      confirmedFrom crates blockNumber blockTimestamp baseFee gasUsed txId xs ++
        confirmedFrom crates blockNumber blockTimestamp baseFee (gasUsed + sumGasUsed xs)
          (txId + xs.length) ys := by
  induction xs generalizing gasUsed txId with
  | nil => simp [confirmedFrom, sumGasUsed]
  | cons t xs ih =>
    have hsum : gasUsed + t.gasUsed + sumGasUsed xs = gasUsed + sumGasUsed (t :: xs) := by
      rw [UInt64.add_assoc]
      rfl
    have hlength : txId + 1 + xs.length = txId + (t :: xs).length := by
      rw [List.length_cons]
      omega
    rw [List.cons_append, confirmedFrom, ih, hsum, hlength, confirmedFrom, List.cons_append]

/-- Taking the state keeps them. -/
theorem confirmedFrom_map_takeState (gasUsed : UInt64) (txId : ℕ) (txs : List SimulatedTx) :
    confirmedFrom crates blockNumber blockTimestamp baseFee gasUsed txId
        (txs.map DBFrag.takeState) =
      confirmedFrom crates blockNumber blockTimestamp baseFee gasUsed txId txs := by
  induction txs generalizing gasUsed txId with
  | nil => rfl
  | cons t txs ih =>
    rw [List.map_cons, confirmedFrom, confirmedFrom]
    exact congrArg₂ List.cons rfl (ih _ _)

/-- One receipt for each transaction. -/
@[simp] theorem length_confirmedFrom (gasUsed : UInt64) (txId : ℕ) (txs : List SimulatedTx) :
    (confirmedFrom crates blockNumber blockTimestamp baseFee gasUsed txId txs).length =
      txs.length := by
  induction txs generalizing gasUsed txId with
  | nil => rfl
  | cons t txs ih => rw [confirmedFrom, List.length_cons, ih, List.length_cons]

end

/-- Receipts are stored by the hashes of their transactions.
SRCLINE: shared.rs:31-33 -/
def insertAll (receipts : HashMap Hash OpTransactionReceipt) (stored : List OpTransactionReceipt) :
    HashMap Hash OpTransactionReceipt :=
  stored.foldl (fun receipts receipt => receipts.insert receipt.transactionHash receipt) receipts

/-- The loop of a cut frag stores these receipts. -/
theorem receipts_foldl_push (baseFee : UInt64) (txs : List SimulatedTx) (seq : FragSequence)
    (shared : SharedState) :
    (txs.foldl (FragSequence.push crates baseFee) (seq, shared)).2.receipts =
      insertAll shared.receipts (confirmedFrom crates seq.blockNumber seq.blockTimestamp baseFee
        seq.gasUsed seq.txs.length txs) := by
  induction txs generalizing seq shared with
  | nil => rfl
  | cons t txs ih =>
    rw [List.foldl_cons, confirmedFrom, insertAll, List.foldl_cons]
    rw [FragSequence.push, ih, List.length_append]
    rfl

/-- The receipts of the frag that is sorted. -/
def fragReceipts (crates : Crates S) (s : Sequencer S) : List OpTransactionReceipt :=
  match s.state with
  | .sorting seq data => confirmedFrom crates seq.blockNumber seq.blockTimestamp
      s.ctx.blockEnv.basefee seq.gasUsed seq.txs.length data.txs
  | _ => []

variable {seq : FragSequence} {data : SortingData} {e : Event} {counts : List ℕ}

/-- The receipts of the frag that is sorted. -/
theorem fragReceipts_eq (hstate : s.state = .sorting seq data) :
    fragReceipts crates s = confirmedFrom crates seq.blockNumber seq.blockTimestamp
      s.ctx.blockEnv.basefee seq.gasUsed seq.txs.length data.txs := by
  rw [fragReceipts, hstate]

/-- Whether an event makes the sequencer cut a frag: a tick after its time is over, or that
the payload is asked for.
SRCLINE: sequencer/src/lib.rs:319-331,460-480 -/
def cutsFrag (s : Sequencer S) : Event → Bool
  | .tick now =>
    match s.state with
    | .sorting _ data => data.shouldSealFrag now
    | _ => false
  | .engineApi .getPayloadV3 _ =>
    match s.state with
    | .sorting _ _ => true
    | _ => false
  | _ => false

variable {ctx : SequencerContext S} {data' : SortingData} {seq' : FragSequence}

/-- A cut stores the receipts of its frag. -/
theorem receipts_of_sealFrag {ctx' : SequencerContext S} {now : ℕ} {msg : FragV0}
    (h : ctx.sealFrag crates data seq now = some (msg, data', seq', ctx')) :
    ctx'.sharedState.receipts = insertAll ctx.sharedState.receipts
      (confirmedFrom crates seq.blockNumber seq.blockTimestamp ctx.blockEnv.basefee seq.gasUsed
        seq.txs.length data.txs) := by
  unfold SequencerContext.sealFrag at h
  dsimp only at h
  split at h
  · cases h
  · rename_i ctx₁ hmined
    simp only [Option.some.injEq, Prod.mk.injEq] at h
    obtain ⟨-, -, -, rfl⟩ := h
    obtain ⟨pool, -, rfl⟩ := Option.map_eq_some_iff.mp hmined
    show (((ctx.commitTxs crates data.txs).2.foldl (FragSequence.push crates _) _).2).receipts = _
    rw [receipts_foldl_push]
    exact congrArg _ (confirmedFrom_map_takeState crates _ _ _ _ _ data.txs)

/-- The last frag of a block is cut by `seal_last_frag`, which has stored its receipts.
SRCLINE: sequencer/src/context.rs:223-227 -/
def StoresLast (crates : Crates S) (s : Sequencer S) (now : ℕ) : Prop :=
  ∃ seq data frag seq' ctx, s.state = .sorting seq data ∧
    s.ctx.sealLastFrag crates data seq now = some (frag, seq', ctx) ∧
    ctx.sharedState.receipts = insertAll s.ctx.sharedState.receipts (fragReceipts crates s)

/-- Sealing stores those of the last one. -/
theorem storesLast_of_seals {now : ℕ} {frag : FragV0} {sl : SealV0}
    {envelope : OpExecutionPayloadEnvelope} (h : Seals crates s now seq data frag sl envelope ctx) :
    StoresLast crates s now := by
  obtain ⟨seq', ctx₁, hlast, -⟩ := h.hsealed
  refine ⟨seq, data, frag, seq', ctx₁, h.hstate, hlast, ?_⟩
  obtain ⟨⟨msg, data', seq₁, ctx₂⟩, hfrag, heq⟩ := Option.map_eq_some_iff.mp hlast
  obtain ⟨-, -, rfl⟩ : _ ∧ seq₁ = seq' ∧ ctx₂ = ctx₁ := by simpa using heq
  rw [receipts_of_sealFrag hfrag, fragReceipts_eq h.hstate]

/-- A block that is built goes on with the frag cut, and the receipts of the frag
are stored then, or with the frags that it had. -/
theorem cutsFrag_of_step {sent : List Output} (h : Step crates s e sent s')
    (hstate : s.state = .sorting seq data) (hstate' : s'.state = .sorting seq' data') :
    (cutsFrag s e = true ∧ seq' = cutSeq seq data ∧
      s'.ctx.sharedState.receipts =
        insertAll s.ctx.sharedState.receipts (fragReceipts crates s)) ∨
    (cutsFrag s e = false ∧ seq' = seq) := by
  have happlies : ∀ {e seq₁ data₁ ctx}, Applies crates s e seq₁ data₁ ctx →
      cutsFrag s e = false ∧ seq₁ = seq := by
    intro e seq₁ data₁ ctx happlies
    cases happlies with
    | best now hbest hwaiting hseal =>
      rw [hstate] at hbest
      cases hbest
      exact ⟨by simp only [cutsFrag, hstate, hseal], rfl⟩
    | deposit result tx hdeposit =>
      rw [hstate] at hdeposit
      cases hdeposit
      exact ⟨rfl, rfl⟩
  cases h with
  | ignored e hignores =>
    rw [hstate] at hstate'
    cases hstate'
    refine .inr ⟨?_, rfl⟩
    unfold cutsFrag
    split
    · simp only [hstate]
      exact (hignores _ _ hstate).1
    · exact absurd hstate (hignores _ _)
    · rfl
  | fetch payload hashes root now hnot => exact absurd hstate (hnot _ _)
  | known => cases hstate'
  | newPayload payload hashes root now hawaits =>
    exact absurd hstate (ne_sorting_of_awaits hawaits _ _)
  | noAttributes => cases hstate'
  | start attributes now hawaits =>
    exact absurd hstate (ne_sorting_of_awaits hawaits _ _)
  | sealed => cases hstate'
  | committed => cases hstate'
  | synced block hsyncing =>
    rw [hstate] at hsyncing
    cases hsyncing
  | imported => cases hstate'
  | newTx =>
    rw [hstate] at hstate'
    cases hstate'
    exact .inr ⟨rfl, rfl⟩
  | simulated result hsorting =>
    rw [hstate] at hsorting
    cases hsorting
    cases hstate'
    exact .inr ⟨rfl, rfl⟩
  | topOfFrag =>
    rw [hstate] at hstate'
    cases hstate'
    exact .inr ⟨rfl, rfl⟩
  | topOfFragFailed =>
    rw [hstate] at hstate'
    cases hstate'
    exact .inr ⟨rfl, rfl⟩
  | cut now hsorting hwaiting hseal hmined hfrag =>
    rw [hstate] at hsorting
    cases hsorting
    cases hstate'
    obtain ⟨pool, -, rfl⟩ := Option.map_eq_some_iff.mp hmined
    refine .inl ⟨by simp only [cutsFrag, hstate, hseal], (cuts_of_sealFrag hfrag).seq_eq, ?_⟩
    rw [receipts_of_sealFrag hfrag, fragReceipts_eq hstate]
  | orders hbest =>
    cases hstate'
    exact .inr (happlies hbest)
  | deposit hbest =>
    cases hstate'
    exact .inr (happlies hbest)

/-! ## The receipts that are stored in a run -/

/-- The receipts that are stored at a step. -/
def stores (crates : Crates S) (p : Process S) (e : Event) : Option (List OpTransactionReceipt) :=
  p.sequencer.bind fun s => if cutsFrag s e then some (fragReceipts crates s) else none

/-- The receipts that are stored in a run, in order. -/
def storedReceipts (crates : Crates S) (start : Process S) (events : List Event) :
    List OpTransactionReceipt :=
  (observed (processStep crates) (stores crates) start events).flatten

/-- The frags of the block that are cut have their receipts stored, as the last ones. -/
def StoredInv (crates : Crates S) (p : Process S) (seen : List (List OpTransactionReceipt)) :
    Prop :=
  ∀ s ∈ p.sequencer, ∀ seq data, s.state = .sorting seq data →
    seq.gasUsed = sumGasUsed seq.txs ∧
      ∃ before, seen.flatten = before ++ confirmedFrom crates seq.blockNumber seq.blockTimestamp
        s.ctx.blockEnv.basefee 0 0 seq.txs

/-- Cutting a frag goes on with the receipts of the block. -/
theorem confirmedFrom_cut (hstate : s.state = .sorting seq data)
    (hgas : seq.gasUsed = sumGasUsed seq.txs) :
    confirmedFrom crates seq.blockNumber seq.blockTimestamp s.ctx.blockEnv.basefee 0 0 seq.txs ++
        fragReceipts crates s =
      confirmedFrom crates seq.blockNumber seq.blockTimestamp s.ctx.blockEnv.basefee 0 0
        (seq.txs ++ data.txs) := by
  rw [confirmedFrom_append, fragReceipts_eq hstate, hgas, UInt64.zero_add, Nat.zero_add]

/-- A step keeps what was stored. -/
theorem storedInv_step {p p' : Process S} {seen : List (List OpTransactionReceipt)}
    (hinv : StoredInv crates p seen) (hstep : processStep crates p e = some p') :
    StoredInv crates p' (seen ++ (stores crates p e).toList) := by
  intro s' hs' seq' data' hstate'
  obtain ⟨s, sent, hs, hcase⟩ := step_of_processStep hstep hs'
  obtain ⟨seq, data, hstate⟩ | hstarts := startTotals_of_step hcase hstate'
  · obtain ⟨hgas, before, hseen⟩ := hinv s hs seq data hstate
    rw [(sameBlock_of_step hcase hstate hstate').blockEnv]
    obtain ⟨hcut, rfl, -⟩ | ⟨hkept, rfl⟩ := cutsFrag_of_step hcase hstate hstate'
    · refine ⟨?_, before, ?_⟩
      · show seq.gasUsed + sumGasUsed data.txs = sumGasUsed (seq.txs ++ _)
        rw [sumGasUsed_append, sumGasUsed_map_takeState, hgas]
      · have hstores : stores crates p e = some (fragReceipts crates s) := by
          simp [stores, hs, hcut]
        rw [hstores, List.flatten_append, hseen]
        show before ++ _ ++ (fragReceipts crates s ++ []) =
          before ++ confirmedFrom crates seq.blockNumber seq.blockTimestamp _ 0 0 (seq.txs ++ _)
        rw [List.append_nil, List.append_assoc, confirmedFrom_cut hstate hgas,
          confirmedFrom_append, confirmedFrom_append, confirmedFrom_map_takeState]
    · have hstores : stores crates p e = none := by simp [stores, hs, hkept]
      rw [hstores]
      exact ⟨hgas, before, by simpa using hseen⟩
  · rw [hstarts.seqUsed, hstarts.seqTxs]
    exact ⟨rfl, _, (List.append_nil _).symm⟩

/-! ## Agreement -/

/-- A receipt that is stored says the same of a transaction as that of the block. -/
structure Agrees (stored : OpTransactionReceipt) (sealed : ReceiptWithBloom) : Prop where
  status : stored.status = sealed.receipt.status
  cumulativeGasUsed : stored.cumulativeGasUsed = sealed.receipt.cumulativeGasUsed
  logs : stored.logs.map RpcLog.inner = sealed.receipt.logs

/-- The logs of receipts are numbered from zero on. -/
def LogsNumbered (stored : List OpTransactionReceipt) : Prop :=
  let logs := stored.flatMap OpTransactionReceipt.logs
  logs.map (fun log => log.logIndex.toNat) = List.range logs.length

instance (stored : List OpTransactionReceipt) : Decidable (LogsNumbered stored) :=
  inferInstanceAs (Decidable (List.map _ _ = List.range _))

/-- Receipts that agree have the same status. -/
theorem map_status_of_agrees {stored : List OpTransactionReceipt} {sealed : List ReceiptWithBloom}
    (h : List.Forall₂ Agrees stored sealed) :
    stored.map OpTransactionReceipt.status = sealed.map (·.receipt.status) := by
  induction h with
  | nil => rfl
  | cons hagrees _ ih => rw [List.map_cons, List.map_cons, hagrees.status, ih]

/-- A receipt that is stored can only differ from that of the block in the status. -/
theorem agrees_iff (t : SimulatedTx) (gasUsed blockNumber blockTimestamp baseFee txId : UInt64)
    (canyonActive : Bool) :
    Agrees (t.opTxReceipt crates gasUsed blockNumber blockTimestamp baseFee txId)
        (t.receipt crates gasUsed canyonActive) ↔
      t.resultAndState.result.isSuccess = true := by
  constructor
  · intro h
    exact h.status.symm
  · intro h
    refine ⟨h.symm, rfl, ?_⟩
    simp [SimulatedTx.opTxReceipt, SimulatedTx.receipt, List.mapIdx_eq_zipIdx_map,
      Function.comp_def, List.zipIdx_map_fst]

/-- They agree if all went well. -/
theorem forall_agrees_iff (blockNumber blockTimestamp baseFee : UInt64) (canyonActive : Bool)
    (gasUsed : UInt64) (txId : ℕ) (txs : List SimulatedTx) :
    List.Forall₂ Agrees
        (confirmedFrom crates blockNumber blockTimestamp baseFee gasUsed txId txs)
        (FragSequence.receiptsFrom crates canyonActive gasUsed txs) ↔
      ∀ t ∈ txs, t.resultAndState.result.isSuccess = true := by
  induction txs generalizing gasUsed txId with
  | nil => simp [confirmedFrom, FragSequence.receiptsFrom]
  | cons t txs ih =>
    rw [confirmedFrom, FragSequence.receiptsFrom, List.forall₂_cons, agrees_iff, ih,
      List.forall_mem_cons]

/-! ## The numbers of the logs -/

/-- The numbers of logs that are counted from zero on for each transaction, as words. -/
def restarted (counts : List ℕ) : List ℕ :=
  counts.flatMap fun n => (List.range n).map fun i => i % 2 ^ 64

/-- Each receipt counts from zero. -/
theorem restarted_cons (n : ℕ) (counts : List ℕ) :
    restarted (n :: counts) = ((List.range n).map fun i => i % 2 ^ 64) ++ restarted counts :=
  List.flatMap_cons

/-- One index for each log. -/
theorem length_restarted (counts : List ℕ) : (restarted counts).length = counts.sum := by
  induction counts with
  | nil => rfl
  | cons n counts ih => rw [restarted_cons, List.length_append, ih, List.length_map,
      List.length_range, List.sum_cons]

/-- Indices fit in a word. -/
theorem lt_of_mem_restarted {i : ℕ} (h : i ∈ restarted counts) : i < 2 ^ 64 := by
  obtain ⟨n, -, hmem⟩ := List.mem_flatMap.mp h
  obtain ⟨j, -, rfl⟩ := List.mem_map.mp hmem
  exact Nat.mod_lt j (by decide)

/-- The first index is zero. -/
theorem zero_mem_range_mod {n : ℕ} (hn : n ≠ 0) :
    0 ∈ (List.range n).map fun i => i % 2 ^ 64 :=
  List.mem_map.mpr ⟨0, List.mem_range.mpr (Nat.pos_of_ne_zero hn), rfl⟩

/-- So it is somewhere. -/
theorem zero_mem_restarted (h : ∃ n ∈ counts, n ≠ 0) : 0 ∈ restarted counts := by
  obtain ⟨n, hmem, hn⟩ := h
  exact List.mem_flatMap.mpr ⟨n, hmem, zero_mem_range_mod hn⟩

/-- Two transactions with logs both have a log with the number zero. -/
theorem length_filter_le_one_of_nodup (h : (restarted counts).Nodup) :
    (counts.filter (· ≠ 0)).length ≤ 1 := by
  induction counts with
  | nil => simp
  | cons n counts ih =>
    rw [restarted_cons, List.nodup_append'] at h
    obtain ⟨-, hrest, hdisjoint⟩ := h
    by_cases hn : n = 0
    · simpa [hn] using ih hrest
    · have hzero : counts.filter (· ≠ 0) = [] := by
        rw [List.filter_eq_nil_iff]
        intro m hm hm'
        exact hdisjoint (zero_mem_range_mod hn) (zero_mem_restarted ⟨m, hm, of_decide_eq_true hm'⟩)
      rw [List.filter_cons_of_pos (by simpa using hn), hzero]
      rfl

/-- One list of logs is numbered. -/
theorem restarted_eq_range (hone : (counts.filter (· ≠ 0)).length ≤ 1)
    (hsum : counts.sum ≤ 2 ^ 64) : restarted counts = List.range counts.sum := by
  induction counts with
  | nil => rfl
  | cons n counts ih =>
    rw [restarted_cons, List.sum_cons] at *
    by_cases hn : n = 0
    · subst hn
      simpa using ih (by simpa using hone) (by omega)
    · rw [List.filter_cons_of_pos (by simpa using hn), List.length_cons] at hone
      have hzero : ∀ m ∈ counts, m = 0 := by
        have hnil : counts.filter (· ≠ 0) = [] := List.eq_nil_of_length_eq_zero (by omega)
        intro m hm
        simpa using List.filter_eq_nil_iff.mp hnil m hm
      have hnone : restarted counts = [] := by
        refine List.flatMap_eq_nil_iff.mpr ?_
        intro m hm
        rw [hzero m hm]
        rfl
      have htotal : counts.sum = 0 := by simpa [List.sum_eq_zero_iff_forall_eq_nat] using hzero
      rw [hnone, htotal, List.append_nil, Nat.add_zero]
      refine (List.map_congr_left ?_).trans (List.map_id _)
      intro i hi
      exact Nat.mod_eq_of_lt (by have := List.mem_range.mp hi; omega)

/-- Numbers that restart for each transaction number all the logs only if they do not restart. -/
theorem restarted_eq_range_iff (counts : List ℕ) :
    restarted counts = List.range counts.sum ↔
      (counts.filter (· ≠ 0)).length ≤ 1 ∧ counts.sum ≤ 2 ^ 64 := by
  constructor
  · intro h
    refine ⟨length_filter_le_one_of_nodup (by rw [h]; exact List.nodup_range), ?_⟩
    by_contra hlt
    have hmem : 2 ^ 64 ∈ restarted counts := by
      rw [h]
      exact List.mem_range.mpr (by omega)
    exact absurd (lt_of_mem_restarted hmem) (Nat.lt_irrefl _)
  · rintro ⟨hone, hsum⟩
    exact restarted_eq_range hone hsum

/-- How many logs each transaction has. -/
def logCounts (txs : List SimulatedTx) : List ℕ :=
  txs.map fun t => t.resultAndState.result.logs.length

variable (crates) in
/-- The indices of the stored logs. -/
theorem logIndices_confirmedFrom (blockNumber blockTimestamp baseFee gasUsed : UInt64) (txId : ℕ)
    (txs : List SimulatedTx) :
    ((confirmedFrom crates blockNumber blockTimestamp baseFee gasUsed txId txs).flatMap
        OpTransactionReceipt.logs).map (fun log => log.logIndex.toNat) =
      restarted (logCounts txs) := by
  induction txs generalizing gasUsed txId with
  | nil => rfl
  | cons t txs ih =>
    rw [confirmedFrom, List.flatMap_cons, List.map_append, ih]
    show _ = restarted (t.resultAndState.result.logs.length :: logCounts txs)
    rw [restarted_cons]
    refine congrArg (· ++ restarted (logCounts txs)) ?_
    refine List.ext_getElem (by simp [SimulatedTx.opTxReceipt]) ?_
    intro i hi hi'
    simp [SimulatedTx.opTxReceipt]

/-- At most one transaction may have logs. -/
theorem logsNumbered_iff (blockNumber blockTimestamp baseFee gasUsed : UInt64) (txId : ℕ)
    (txs : List SimulatedTx) :
    LogsNumbered (confirmedFrom crates blockNumber blockTimestamp baseFee gasUsed txId txs) ↔
      ((logCounts txs).filter (· ≠ 0)).length ≤ 1 ∧ (logCounts txs).sum ≤ 2 ^ 64 := by
  have hindices := logIndices_confirmedFrom crates blockNumber blockTimestamp baseFee gasUsed txId
    txs
  have hlength := congrArg List.length hindices
  rw [List.length_map, length_restarted] at hlength
  unfold LogsNumbered
  dsimp only
  rw [hindices, hlength, restarted_eq_range_iff]

/-! ## Every sealed block -/

/-- The receipts that a run has stored of the block that is sealed at its end. -/
def storedOfBlock (crates : Crates S) (start : Process S) (events : List Event) (s : Sequencer S) :
    List OpTransactionReceipt :=
  (storedReceipts crates start events).rtake (blockTxs s).length

/-- The receipts of the block for the root of its receipts.
SRCLINE: frag_sequence.rs:69-85 -/
def sealedReceipts (crates : Crates S) (s : Sequencer S) : List ReceiptWithBloom :=
  FragSequence.receiptsFrom crates (crates.isCanyonActive s.ctx.blockEnv.timestamp) 0 (blockTxs s)

/-- Taking the state keeps the sealed receipts. -/
theorem receiptsFrom_map_takeState (canyonActive : Bool) (gasUsed : UInt64)
    (xs ys : List SimulatedTx) :
    FragSequence.receiptsFrom crates canyonActive gasUsed (xs ++ ys.map DBFrag.takeState) =
      FragSequence.receiptsFrom crates canyonActive gasUsed (xs ++ ys) := by
  induction xs generalizing gasUsed with
  | nil =>
    rw [List.nil_append, List.nil_append]
    induction ys generalizing gasUsed with
    | nil => rfl
    | cons t ys ih =>
      rw [List.map_cons, FragSequence.receiptsFrom, FragSequence.receiptsFrom]
      exact congrArg₂ List.cons rfl (ih _)
  | cons t xs ih =>
    rw [List.cons_append, List.cons_append, FragSequence.receiptsFrom, ih,
      FragSequence.receiptsFrom]

/-- What is stored of a sealed block are the receipts of all its transactions. -/
theorem storedOfBlock_eq {config : SequencerConfig} {db : SequencerDB S} {events : List Event}
    {p : Process S}
    (hrun : runSteps (processStep crates) ⟨some (.new crates config db), []⟩ events = some p)
    (hs : p.sequencer = some s) (hstate : s.state = .sorting seq data)
    (hcut : cutsFrag s e = true) :
    storedOfBlock crates ⟨some (.new crates config db), []⟩ (events ++ [e]) s =
      confirmedFrom crates seq.blockNumber seq.blockTimestamp s.ctx.blockEnv.basefee 0 0
        (blockTxs s) := by
  have hinv : StoredInv crates p ([] ++ observed (processStep crates) (stores crates)
      ⟨some (.new crates config db), []⟩ events) := by
    refine Along.observed_induction (P := fun _ _ => True) ?_
      (along_of_forall (fun _ _ => trivial) _ _) ?_ hrun
    · intro p e p' seen _ hinv hstep
      exact storedInv_step hinv hstep
    · rintro _ ⟨⟩ seq data hnew
      cases hnew
  obtain ⟨hgas, before, hseen⟩ := hinv s hs seq data hstate
  have hstores : stores crates p e = some (fragReceipts crates s) := by simp [stores, hs, hcut]
  have hstored : storedReceipts crates ⟨some (.new crates config db), []⟩ (events ++ [e]) =
      before ++ confirmedFrom crates seq.blockNumber seq.blockTimestamp s.ctx.blockEnv.basefee 0 0
        (blockTxs s) := by
    rw [storedReceipts, observed_concat hrun, List.flatten_append, hstores, blockTxs_eq hstate,
      ← confirmedFrom_cut hstate hgas, ← List.append_assoc, ← hseen]
    simp
  rw [storedOfBlock, hstored, List.rtake, List.length_append, length_confirmedFrom,
    Nat.add_sub_cancel]
  exact List.drop_left

/-- A sealed block is asked for, and sealing its last frag stores the receipts of that frag. The
stored receipts of the block agree with those of its root of the receipts and number its logs if and
only if all its transactions went well and at most one of them has logs, no more than words can
number.
SRCLINE: simulated/transaction.rs:49-137, frag_sequence.rs:51-85 -/
theorem receipts_match_iff {config : SequencerConfig} {db : SequencerDB S} {events : List Event}
    {p : Process S} {e : Event} {envelope : OpExecutionPayloadEnvelope}
    (hrun : runSteps (processStep crates) ⟨some (.new crates config db), []⟩ events = some p)
    (hs : p.sequencer = some s) (htakes : s.takes e = true)
    (hpayload : .payload envelope ∈ (s.handle crates e).sent) :
    envelope.executionPayload.receiptsRoot =
        crates.orderedTrieRootReceipts (sealedReceipts crates s) ∧
      (∃ now, e = .engineApi .getPayloadV3 now ∧ StoresLast crates s now) ∧
      (List.Forall₂ Agrees
          (storedOfBlock crates ⟨some (.new crates config db), []⟩ (events ++ [e]) s)
          (sealedReceipts crates s) ∧
        LogsNumbered (storedOfBlock crates ⟨some (.new crates config db), []⟩ (events ++ [e]) s) ↔
      (∀ t ∈ blockTxs s, t.resultAndState.result.isSuccess = true) ∧
        ((logCounts (blockTxs s)).filter (· ≠ 0)).length ≤ 1 ∧
        (logCounts (blockTxs s)).sum ≤ 2 ^ 64) := by
  obtain ⟨now, seq, data, frag, sl, ctx, rfl, hseals⟩ := seals_of_payload htakes hpayload
  obtain ⟨seq₁, data₁, hstate₁, -, -, -, hroot⟩ := totals_of_payload htakes hpayload
  have hstate := hseals.hstate
  rw [hstate] at hstate₁
  cases hstate₁
  have hcut : cutsFrag s (.engineApi .getPayloadV3 now) = true := by simp only [cutsFrag, hstate]
  refine ⟨?_, ⟨now, rfl, storesLast_of_seals hseals⟩, ?_⟩
  · rw [hroot, receiptsFrom_map_takeState, sealedReceipts, blockTxs_eq hstate]
  · rw [storedOfBlock_eq hrun hs hstate hcut, sealedReceipts, forall_agrees_iff, logsNumbered_iff]

/-- A transaction of a user. -/
def userTx (sender : Address) : Transaction := { plainRawTx [0] with sender := sender }

def userResult (sender : Address) (result : ExecutionResult) (stateId : UInt64) :
    SimulatorToSequencer where
  senderInfo := (sender, 0)
  stateId := stateId
  msg := .tx (.ok
    { tx := userTx sender
      resultAndState := { result := result, state := [] }
      payment := 1
      depositNonce := none })

/-- A transaction with one log is put into a block. -/
def oneLogged : List Event :=
  [newPayloadEvent plainPayload1,
    startEvent plainPayload1.blockHash (plainAttributes 102 [] false),
    .newTx (userTx 7),
    .tick 2,
    .simResult (userResult 7 (.success 30000 [⟨1, [], []⟩]) 3),
    .tick 3]

/-- Its frag is cut, and another transaction with one log and one that is reverted follow. -/
def twoLogged : List Event :=
  oneLogged ++
    [.tick 11,
      .newTx (userTx 8),
      .tick 12,
      .simResult (userResult 8 (.success 30000 [⟨1, [], []⟩]) 6),
      .tick 13,
      .newTx (userTx 6),
      .tick 14,
      .simResult (userResult 6 (.revert 25000) 7),
      .tick 15]

/-- What is to be known of the receipts of a block: those that are stored, with the numbers
of their logs, and those of the root. -/
structure ReceiptsView where
  taken : Bool
  values : List U256
  stored : List (Bool × List UInt64)
  sealed : List Bool
  wentWell : List Bool
  logCounts : List ℕ
  numbered : Bool
  deriving DecidableEq

def receiptsView (events : List Event) (s : Sequencer ℕ) : ReceiptsView :=
  let stored := storedOfBlock plainCrates (plainProcess false)
    (events ++ [.engineApi .getPayloadV3 16]) s
  { taken := s.takes (.engineApi .getPayloadV3 16)
    values := (payloads (s.handle plainCrates (.engineApi .getPayloadV3 16)).sent).map
      (·.blockValue)
    stored := stored.map fun receipt => (receipt.status, receipt.logs.map RpcLog.logIndex)
    sealed := (sealedReceipts plainCrates s).map (·.receipt.status)
    wentWell := (blockTxs s).map fun t => t.resultAndState.result.isSuccess
    logCounts := logCounts (blockTxs s)
    numbered := decide (LogsNumbered stored) }

/-- A block with one log. -/
theorem receipts_match_oneLogged :
    ∃ p s envelope, runSteps (processStep plainCrates) (plainProcess false) oneLogged = some p ∧
      p.sequencer = some s ∧
      .payload envelope ∈ (s.handle plainCrates (.engineApi .getPayloadV3 16)).sent ∧
      logCounts (blockTxs s) = [1] ∧
      List.Forall₂ Agrees (storedOfBlock plainCrates (plainProcess false)
        (oneLogged ++ [.engineApi .getPayloadV3 16]) s) (sealedReceipts plainCrates s) ∧
      LogsNumbered (storedOfBlock plainCrates (plainProcess false)
        (oneLogged ++ [.engineApi .getPayloadV3 16]) s) := by
  have hview : (runSteps (processStep plainCrates) (plainProcess false) oneLogged).bind
      (·.sequencer.map (receiptsView oneLogged)) =
        some ⟨true, [0], [(true, [0])], [true], [true], [1], true⟩ := by
    decide +kernel
  obtain ⟨p, hrun, hp⟩ := Option.bind_eq_some_iff.mp hview
  obtain ⟨s, hs, heq⟩ := Option.map_eq_some_iff.mp hp
  obtain ⟨htakes, hvalues, -, -, hwell, hcounts, -⟩ := ReceiptsView.mk.inj heq
  obtain ⟨envelope, hpayload, -⟩ := GossipStream.exists_payload_of_map hvalues
  refine ⟨p, s, envelope, hrun, hs, hpayload, hcounts, ?_⟩
  refine (receipts_match_iff hrun hs htakes hpayload).2.2.mpr ⟨?_, ?_, ?_⟩
  · intro t ht
    have hmem : t.resultAndState.result.isSuccess ∈
        (blockTxs s).map fun t => t.resultAndState.result.isSuccess := List.mem_map_of_mem ht
    rw [hwell] at hmem
    exact List.mem_singleton.mp hmem
  · rw [hcounts]
    decide
  · rw [hcounts]
    decide

/-- The stored receipt of a transaction that was reverted says that it went well, and both
logs of the block have the number zero.
SRCLINE: simulated/transaction.rs:87-103 -/
theorem receipts_differ_twoLogged :
    ∃ p s envelope, runSteps (processStep plainCrates) (plainProcess false) twoLogged = some p ∧
      p.sequencer = some s ∧ s.takes (.engineApi .getPayloadV3 16) = true ∧
      .payload envelope ∈ (s.handle plainCrates (.engineApi .getPayloadV3 16)).sent ∧
      (storedOfBlock plainCrates (plainProcess false)
        (twoLogged ++ [.engineApi .getPayloadV3 16]) s).map (fun receipt =>
          (receipt.status, receipt.logs.map RpcLog.logIndex)) =
        [(true, [0]), (true, [0]), (true, [])] ∧
      (sealedReceipts plainCrates s).map (·.receipt.status) = [true, true, false] ∧
      ¬ List.Forall₂ Agrees (storedOfBlock plainCrates (plainProcess false)
        (twoLogged ++ [.engineApi .getPayloadV3 16]) s) (sealedReceipts plainCrates s) ∧
      ¬ LogsNumbered (storedOfBlock plainCrates (plainProcess false)
        (twoLogged ++ [.engineApi .getPayloadV3 16]) s) := by
  have hview : (runSteps (processStep plainCrates) (plainProcess false) twoLogged).bind
      (·.sequencer.map (receiptsView twoLogged)) =
        some ⟨true, [0], [(true, [0]), (true, [0]), (true, [])], [true, true, false],
          [true, true, false], [1, 1, 0], false⟩ := by
    decide +kernel
  obtain ⟨p, hrun, hp⟩ := Option.bind_eq_some_iff.mp hview
  obtain ⟨s, hs, heq⟩ := Option.map_eq_some_iff.mp hp
  obtain ⟨htakes, hvalues, hstored, hsealed, -, -, hnumbered⟩ := ReceiptsView.mk.inj heq
  obtain ⟨envelope, hpayload, -⟩ := GossipStream.exists_payload_of_map hvalues
  refine ⟨p, s, envelope, hrun, hs, htakes, hpayload, hstored, hsealed, ?_,
    of_decide_eq_false hnumbered⟩
  intro hagrees
  have hstatus := congrArg (List.map Prod.fst) hstored
  rw [List.map_map] at hstatus
  have hsame := hstatus.symm.trans ((map_status_of_agrees hagrees).trans hsealed)
  exact absurd hsame (by decide)

end BasedOp.Analysis.Receipts
