import BasedOp.Analysis.BlockTotals

/-!
# The gas of a block

What the frags of a block have used and what is left add up to its gas limit, as numbers
and not only as words, and no counter is ever taken below zero. That is so as long as a
deposit that is waited for uses no more than what is left: the best result of a round is
held against the gas that is left before it is applied, but a deposit is not.
-/

set_option autoImplicit false

namespace BasedOp.Analysis.GasAccounting

open BasedOp.Computation Model Model.Gateway
open SequencerSteps SequencerFrames
open StateIds BlockTotals
open GossipStream (blockTxs payloads)

variable {S : Type} {crates : Crates S} {s s' : Sequencer S}

/-! ## Gas as a number -/

/-- The gas that transactions have used, added up as numbers. -/
def gasTotal (txs : List SimulatedTx) : ℕ := (txs.map fun t => t.gasUsed.toNat).sum

/-- Gas adds up. -/
theorem gasTotal_append (xs ys : List SimulatedTx) :
    gasTotal (xs ++ ys) = gasTotal xs + gasTotal ys := by
  simp [gasTotal]

/-- No transactions use no gas. -/
@[simp] theorem gasTotal_nil : gasTotal [] = 0 := rfl

/-- The gas of one transaction. -/
@[simp] theorem gasTotal_singleton (t : SimulatedTx) : gasTotal [t] = t.gasUsed.toNat := by
  simp [gasTotal]

/-- Taking the state keeps the gas. -/
theorem gasTotal_map_takeState (txs : List SimulatedTx) :
    gasTotal (txs.map DBFrag.takeState) = gasTotal txs := by
  simp only [gasTotal, List.map_map]
  rfl

variable {txs : List SimulatedTx}

/-- The word is the number as long as that is below the bound of words. -/
theorem toNat_sumGasUsed (h : gasTotal txs < 2 ^ 64) : (sumGasUsed txs).toNat = gasTotal txs := by
  induction txs with
  | nil => rfl
  | cons t txs ih =>
    have hcons : gasTotal (t :: txs) = t.gasUsed.toNat + gasTotal txs := rfl
    have hsum : sumGasUsed (t :: txs) = t.gasUsed + sumGasUsed txs := rfl
    have hrest : (sumGasUsed txs).toNat = gasTotal txs := ih (by omega)
    rw [hsum, UInt64.toNat_add, hrest, ← hcons, Nat.mod_eq_of_lt h]

/-- A total that fits does not wrap. -/
theorem toNat_sub_sumGasUsed {gas : UInt64} (h : gasTotal txs ≤ gas.toNat) :
    (gas - sumGasUsed txs).toNat = gas.toNat - gasTotal txs := by
  have hsum := toNat_sumGasUsed (h.trans_lt gas.toNat_lt)
  rw [UInt64.toNat_sub_of_le _ _ (UInt64.le_iff_toNat_le.mpr (by rw [hsum]; exact h)), hsum]

/-! ## The accounts -/

/-- The gas of a block is accounted for: what its frags have used and what is left of the
limit, and what is left to the frag that is sorted. -/
structure Accounted (gasLimit : UInt64) (seq : FragSequence) (data : SortingData) : Prop where
  limit : seq.gasUsed.toNat + seq.gasRemaining.toNat = gasLimit.toNat
  used : seq.gasUsed.toNat = gasTotal seq.txs
  sorted : data.gasRemaining.toNat + gasTotal data.txs = seq.gasRemaining.toNat

/-- The forced transactions of the block use no more gas than it has. -/
def ForcedFit (s : Sequencer S) : Prop := gasTotal (forced s) ≤ s.ctx.blockEnv.gasLimit.toNat

instance (s : Sequencer S) : Decidable (ForcedFit s) :=
  inferInstanceAs (Decidable (gasTotal (forced s) ≤ s.ctx.blockEnv.gasLimit.toNat))

/-- The result of the deposit that is waited for has used no more gas than what is left to
the frag that is sorted. -/
def DepositFits (p : Process S) : Event → Prop
  | .simResult result => ∀ s ∈ p.sequencer, s.waiting = true →
    match s.state, result.msg with
    | .sorting _ data, .tx (.ok tx) =>
      data.isValid result.stateId = true → tx.gasUsed ≤ data.gasRemaining
    | _, _ => True
  | _ => True

instance (p : Process S) (e : Event) : Decidable (DepositFits p e) := by
  cases e with
  | simResult result =>
    refine @Option.decidableForallMem _ _ (fun s => ?_) _
    rcases s.state with _ | _ | _ | _ <;> rcases result.msg with (_ | _) | (_ | _) <;>
      infer_instance
  | _ => exact isTrue trivial

variable {gasLimit : UInt64} {seq seq' : FragSequence} {data data' : SortingData} {e : Event}
  {sent : List Output} {p : Process S}

/-- The accounts of a new block. -/
theorem Accounted.start {count : ℕ} (h : StartTotals gasLimit count seq data)
    (hfit : gasTotal data.txs ≤ gasLimit.toNat) :
    Accounted gasLimit seq data := by
  refine ⟨?_, ?_, ?_⟩
  · rw [h.seqUsed, h.seqGas]
    exact Nat.zero_add _
  · rw [h.seqUsed, h.seqTxs]
    rfl
  · rw [h.gas, h.seqGas, toNat_sub_sumGasUsed hfit]
    omega

/-- A frag keeps the accounts. -/
theorem Accounted.frag (h : Accounted gasLimit seq data)
    (hgas : data'.gasRemaining = (cutSeq seq data).gasRemaining) (htxs : data'.txs = []) :
    Accounted gasLimit (cutSeq seq data) data' := by
  have hle : gasTotal data.txs ≤ seq.gasRemaining.toNat := by
    have hsorted := h.sorted
    omega
  have hremaining : (cutSeq seq data).gasRemaining.toNat =
      seq.gasRemaining.toNat - gasTotal data.txs := toNat_sub_sumGasUsed hle
  have hlimit := h.limit
  have hmax := gasLimit.toNat_lt
  have hused : (cutSeq seq data).gasUsed.toNat = seq.gasUsed.toNat + gasTotal data.txs := by
    show (seq.gasUsed + sumGasUsed data.txs).toNat = _
    rw [UInt64.toNat_add, toNat_sumGasUsed (by omega), Nat.mod_eq_of_lt (by omega)]
  refine ⟨by omega, ?_, ?_⟩
  · show _ = gasTotal (seq.txs ++ data.txs.map DBFrag.takeState)
    rw [hused, gasTotal_append, gasTotal_map_takeState, h.used]
  · rw [hgas, htxs, gasTotal_nil, Nat.add_zero]

/-- So does a transaction that fits. -/
theorem Accounted.tx {tx : SimulatedTx} (h : Accounted gasLimit seq data)
    (hle : tx.gasUsed ≤ data.gasRemaining)
    (hgas : data'.gasRemaining = data.gasRemaining - tx.gasUsed)
    (htxs : data'.txs = data.txs ++ [tx]) : Accounted gasLimit seq data' := by
  refine ⟨h.limit, h.used, ?_⟩
  have hsorted := h.sorted
  have hsub : (data.gasRemaining - tx.gasUsed).toNat =
      data.gasRemaining.toNat - tx.gasUsed.toNat := UInt64.toNat_sub_of_le _ _ hle
  have hnat := UInt64.le_iff_toNat_le.mp hle
  rw [hgas, htxs, gasTotal_append, gasTotal_singleton, hsub]
  omega

/-! ## Every run -/

/-- While a block is built its gas is accounted for, and there is gas left for the best
result of the round. While a deposit is waited for there is no such result. -/
structure GasInv (s : Sequencer S) (seq : FragSequence) (data : SortingData) : Prop where
  settled : s.waiting = true → data.nextToBeApplied = none
  count : forcedCount s ≤ (blockTxs s).length
  accounted : ForcedFit s → Accounted s.ctx.blockEnv.gasLimit seq data
  best : ∀ tx ∈ data.nextToBeApplied, tx.gasUsed ≤ data.gasRemaining

/-- A deposit is only waited for when nothing else is to be applied. -/
theorem settled_of_step (h : Step crates s e sent s') (hstate' : s'.state = .sorting seq' data')
    (hsettled : ∀ seq data, s.state = .sorting seq data → s.waiting = true →
      data.nextToBeApplied = none) :
    s'.waiting = true → data'.nextToBeApplied = none := by
  cases fragStep_of_step h with
  | leaves hleaves => exact absurd hstate' (hleaves _ _)
  | starts => exact fun hwaiting => nomatch hwaiting
  | cuts now hcut hwaiting => exact fun hwaiting => nomatch hwaiting
  | keeps hstate hdata =>
    cases hstate'
    intro hwaiting
    have hnone := hsettled _ _ hstate hwaiting
    obtain rfl | ⟨tx, -, rfl⟩ := hdata <;> exact hnone
  | takes result hstate hwaiting => exact fun hwaiting => nomatch hwaiting
  | orders => exact fun hwaiting => nomatch hwaiting
  | deposit happlies =>
    cases hstate'
    intro _
    obtain ⟨data, hstate, happlied⟩ := applied_of_applies happlies
    exact happlied.best_eq_none (hsettled _ data hstate)

/-- A transaction that is applied has used no more than what is left. -/
theorem gas_le_of_chosen {tx : SimulatedTx} (hs : p.sequencer = some s)
    (hstate : s.state = .sorting seq data) (hfits : DepositFits p e) (hinv : GasInv s seq data)
    (h : Chosen s data e tx) :
    tx.gasUsed ≤ data.gasRemaining := by
  obtain ⟨-, hbest⟩ | ⟨hwaiting, result, rfl, hvalid, hmsg⟩ := h
  · exact hinv.best tx hbest
  · have hdeposit := hfits s hs hwaiting
    rw [hstate, hmsg] at hdeposit
    exact hdeposit hvalid

/-- A step keeps the invariant. -/
theorem gasInv_step (hs : p.sequencer = some s) (h : Step crates s e sent s')
    (hfits : DepositFits p e) (hinv : ∀ seq data, s.state = .sorting seq data → GasInv s seq data)
    (hstate' : s'.state = .sorting seq' data') :
    GasInv s' seq' data' := by
  have hsettled := settled_of_step h hstate' fun seq data hstate => (hinv seq data hstate).settled
  obtain ⟨seq, data, hstate⟩ | hstarts := startTotals_of_step h hstate'
  · have hgas := hinv seq data hstate
    obtain ⟨hcount, hforced⟩ := forced_of_step h hstate hstate' hgas.count
    have hlimit : s'.ctx.blockEnv.gasLimit = s.ctx.blockEnv.gasLimit := by
      rw [(sameBlock_of_step h hstate hstate').blockEnv]
    have hfit : ForcedFit s' → ForcedFit s := by
      intro hfit
      rw [ForcedFit, ← gasTotal_map_takeState, hforced, gasTotal_map_takeState, hlimit] at hfit
      exact hfit
    cases adds_of_step h hstate hstate' with
    | nothing hseq hgas' hpayment htxs hbest =>
      refine ⟨hsettled, hcount, ?_, ?_⟩
      · intro hfit'
        have hacc := hgas.accounted (hfit hfit')
        rw [hlimit, hseq]
        exact ⟨hacc.limit, hacc.used, by rw [hgas', htxs, hacc.sorted]⟩
      · intro tx hnext
        rw [hgas']
        obtain hbest | ⟨tx', hbest, hlt⟩ := hbest
        · exact hgas.best tx (hbest ▸ hnext)
        · rw [hbest] at hnext
          obtain rfl := Option.some.inj hnext
          exact UInt64.le_of_lt hlt
    | frag hseq hgas' hpayment htxs hbest =>
      refine ⟨hsettled, hcount, ?_, by simp [hbest]⟩
      intro hfit'
      subst hseq
      rw [hlimit]
      exact (hgas.accounted (hfit hfit')).frag hgas' htxs
    | tx tx hchosen hseq hgas' hpayment htxs hbest =>
      have hle := gas_le_of_chosen hs hstate hfits hgas hchosen
      refine ⟨hsettled, hcount, ?_, ?_⟩
      · intro hfit'
        rw [hlimit, hseq]
        exact (hgas.accounted (hfit hfit')).tx hle hgas' htxs
      · -- nothing is to be applied next, since a deposit is only waited for when nothing is
        have hnone : data'.nextToBeApplied = none := by
          obtain hnone | ⟨hwaiting, heq⟩ := hbest
          · exact hnone
          · rw [heq, hgas.settled hwaiting]
        simp [hnone]
  · obtain ⟨hcount, hforced⟩ := hstarts.forced_eq hstate'
    refine ⟨hsettled, hcount, ?_, by simp [hstarts.nextToBeApplied]⟩
    intro hfit
    rw [ForcedFit, hforced] at hfit
    exact .start hstarts hfit

/-- The gas left to the frags and to the one that is sorted never grows while a block is built. -/
theorem gas_le_of_step (hs : p.sequencer = some s) (h : Step crates s e sent s')
    (hfits : DepositFits p e) (hstate : s.state = .sorting seq data) (hinv : GasInv s seq data)
    (hforced : ForcedFit s) (hstate' : s'.state = .sorting seq' data') :
    seq'.gasRemaining ≤ seq.gasRemaining ∧ data'.gasRemaining ≤ data.gasRemaining := by
  have hacc := hinv.accounted hforced
  cases adds_of_step h hstate hstate' with
  | nothing hseq hgas =>
    rw [hseq, hgas]
    exact ⟨UInt64.le_refl _, UInt64.le_refl _⟩
  | frag hseq hgas =>
    have hsorted := hacc.sorted
    have hremaining : seq'.gasRemaining.toNat = seq.gasRemaining.toNat - gasTotal data.txs := by
      rw [hseq]
      exact toNat_sub_sumGasUsed (by omega)
    rw [hgas, UInt64.le_iff_toNat_le, UInt64.le_iff_toNat_le]
    omega
  | tx tx hchosen hseq hgas =>
    have hle := gas_le_of_chosen hs hstate hfits hinv hchosen
    rw [hseq, hgas, UInt64.le_iff_toNat_le (b := data.gasRemaining), UInt64.toNat_sub_of_le _ _ hle]
    exact ⟨UInt64.le_refl _, Nat.sub_le _ _⟩

/-- What the gas counters of a block owe to its gas limit, in a state and at the next step:
the accounts add up, no counter that something is taken from wraps around to a larger value
while the block is built, nor does the one of the block when its last frag is cut, and the
payload has used no more than the limit. -/
structure GasSound (crates : Crates S) (p : Process S) (s : Sequencer S) : Prop where
  accounted : ∀ seq data, s.state = .sorting seq data →
    Accounted s.ctx.blockEnv.gasLimit seq data
  noUnderflow : ∀ e p' s' seq data seq' data', DepositFits p e →
    processStep crates p e = some p' → p'.sequencer = some s' →
    s.state = .sorting seq data → s'.state = .sorting seq' data' →
    seq'.gasRemaining ≤ seq.gasRemaining ∧ data'.gasRemaining ≤ data.gasRemaining
  lastFrag : ∀ seq data, s.state = .sorting seq data → sumGasUsed data.txs ≤ seq.gasRemaining
  payload : ∀ e envelope, s.takes e = true → .payload envelope ∈ (s.handle crates e).sent →
    envelope.executionPayload.gasLimit = s.ctx.blockEnv.gasLimit ∧
      envelope.executionPayload.gasUsed ≤ s.ctx.blockEnv.gasLimit

/-- The gas of every block whose forced transactions fit into it is accounted for,
in every run in which no deposit is applied that uses more gas than what is left.
SRCLINE: sorting_data.rs:147-183,195-229,264-280,323-341,
frag_sequence.rs:45-67, sequencer/src/context.rs:223-313 -/
theorem gas_sound {config : SequencerConfig} {db : SequencerDB S} {events : List Event}
    {p : Process S}
    (hfits : Along (processStep crates) DepositFits ⟨some (.new crates config db), []⟩ events)
    (hrun : runSteps (processStep crates) ⟨some (.new crates config db), []⟩ events = some p)
    (hs : p.sequencer = some s) (hforced : ForcedFit s) : GasSound crates p s := by
  have hinv : ∀ s ∈ p.sequencer, ∀ seq data, s.state = .sorting seq data → GasInv s seq data := by
    refine hfits.induction (I := fun p => ∀ s ∈ p.sequencer, ∀ seq data,
      s.state = .sorting seq data → GasInv s seq data) ?_ ?_ hrun
    · intro p e p' hfits hinv hstep s' hs' seq' data' hstate'
      obtain ⟨s, sent, hs, hcase⟩ := step_of_processStep hstep hs'
      exact gasInv_step hs hcase hfits (hinv s hs) hstate'
    · rintro _ ⟨⟩ seq data hstate
      cases hstate
  have hacc : ∀ seq data, s.state = .sorting seq data →
      Accounted s.ctx.blockEnv.gasLimit seq data :=
    fun seq data hstate => (hinv s hs seq data hstate).accounted hforced
  have hlast : ∀ seq data, s.state = .sorting seq data →
      (sumGasUsed data.txs).toNat = gasTotal data.txs ∧
        gasTotal data.txs ≤ seq.gasRemaining.toNat := by
    intro seq data hstate
    have hsorted := (hacc seq data hstate).sorted
    have hmax := seq.gasRemaining.toNat_lt
    exact ⟨toNat_sumGasUsed (by omega), by omega⟩
  refine ⟨hacc, ?_, ?_, ?_⟩
  · intro e p' s' seq data seq' data' hfits' hstep hs' hstate hstate'
    obtain ⟨s₁, sent, hs₁, hcase⟩ := step_of_processStep hstep hs'
    obtain rfl : s = s₁ := Option.some.inj (hs.symm.trans hs₁)
    exact gas_le_of_step hs hcase hfits' hstate (hinv s hs seq data hstate) hforced hstate'
  · intro seq data hstate
    obtain ⟨hsum, hle⟩ := hlast seq data hstate
    rw [UInt64.le_iff_toNat_le, hsum]
    exact hle
  · intro e envelope htakes hpayload
    obtain ⟨seq, data, hstate, -, hused, hlimit, -⟩ := totals_of_payload htakes hpayload
    refine ⟨hlimit, ?_⟩
    obtain ⟨hsum, hle⟩ := hlast seq data hstate
    have htotal := (hacc seq data hstate).limit
    have hmax := s.ctx.blockEnv.gasLimit.toNat_lt
    rw [hused, UInt64.le_iff_toNat_le, UInt64.toNat_add, hsum, Nat.mod_eq_of_lt (by omega)]
    omega

/-- A deposit that is sent to the gateway, with two thirds of the gas limit of a block. -/
def bigDeposit : Transaction where
  tx := .deposit { sender := 9, gasLimit := 20000000, body := [] }
  sender := 9
  envelope := [0x7e]

/-- All of its gas is used. -/
def bigResult (stateId : UInt64) : SimulatorToSequencer where
  senderInfo := (9, 0)
  stateId := stateId
  msg := .tx (.ok
    { tx := bigDeposit
      resultAndState := { result := .success 20000000 [], state := [] }
      payment := 0
      depositNonce := none })

/-- A block is started with a forced transaction, and a number of such deposits arrive. -/
def depositsArrive (count : ℕ) : List Event :=
  [newPayloadEvent plainPayload1,
    startEvent plainPayload1.blockHash (plainAttributes 102 [[0x7e, 1]] false)] ++
    List.replicate count (.newTx bigDeposit) ++ [.tick 2]

/-- What is to be known of the gas of a sequencer. -/
structure GasView where
  gasLimit : UInt64
  forcedFit : Bool
  seqUsed : UInt64
  seqRemaining : UInt64
  remaining : UInt64
  txs : List (UInt64 × UInt64)
  deriving DecidableEq

def gasView (s : Sequencer ℕ) : Option GasView :=
  match s.state with
  | .sorting seq data => some
    { gasLimit := s.ctx.blockEnv.gasLimit
      forcedFit := decide (ForcedFit s)
      seqUsed := seq.gasUsed
      seqRemaining := seq.gasRemaining
      remaining := data.gasRemaining
      txs := data.txs.map fun t => (t.gasUsed, t.tx.gasLimit) }
  | _ => none

/-- What the computed view says. -/
theorem sorting_of_gasView {s : Sequencer ℕ} {view : GasView} (h : gasView s = some view) :
    ∃ seq data, s.state = .sorting seq data ∧ s.ctx.blockEnv.gasLimit = view.gasLimit ∧
      decide (ForcedFit s) = view.forcedFit ∧ seq.gasUsed = view.seqUsed ∧
      seq.gasRemaining = view.seqRemaining ∧ data.gasRemaining = view.remaining ∧
      data.txs.map (fun t => (t.gasUsed, t.tx.gasLimit)) = view.txs := by
  unfold gasView at h
  split at h
  · rename_i seq data hstate
    obtain rfl := Option.some.inj h
    exact ⟨seq, data, hstate, rfl, rfl, rfl, rfl, rfl, rfl⟩
  · cases h

/-- A block with one deposit. -/
theorem gas_sound_oneDeposit :
    ∃ p s seq data, runSteps (processStep plainCrates) (plainProcess false)
        (depositsArrive 1 ++ [.simResult (bigResult 3)]) = some p ∧
      p.sequencer = some s ∧ s.state = .sorting seq data ∧ data.gasRemaining = 9979000 ∧
      GasSound plainCrates p s := by
  have hview : (runSteps (processStep plainCrates) (plainProcess false)
      (depositsArrive 1 ++ [.simResult (bigResult 3)])).bind (·.sequencer.bind gasView) =
        some ⟨30000000, true, 0, 30000000, 9979000, [(21000, 50000), (20000000, 20000000)]⟩ := by
    decide +kernel
  obtain ⟨p, hrun, hp⟩ := Option.bind_eq_some_iff.mp hview
  obtain ⟨s, hs, hgas⟩ := Option.bind_eq_some_iff.mp hp
  obtain ⟨seq, data, hstate, -, hforced, -, -, hremaining, -⟩ := sorting_of_gasView hgas
  exact ⟨p, s, seq, data, hrun, hs, hstate, hremaining,
    gas_sound (by decide +kernel) hrun hs (of_decide_eq_true hforced)⟩

/-- Two deposits that use more gas together than the block has are both applied: what is
left to the frag wraps around, and the block uses more than its limit. Each of them is
within its own gas limit, and that within the limit of the block.
SRCLINE: sorting_data.rs:195-229,264-273 -/
theorem gas_underflow_twoDeposits :
    ∃ p s seq data, runSteps (processStep plainCrates) (plainProcess false)
        (depositsArrive 2 ++ [.simResult (bigResult 3), .simResult (bigResult 5)]) = some p ∧
      p.sequencer = some s ∧ s.state = .sorting seq data ∧ ForcedFit s ∧
      (∀ t ∈ data.txs, t.gasUsed ≤ t.tx.gasLimit ∧ t.tx.gasLimit ≤ s.ctx.blockEnv.gasLimit) ∧
      seq.gasRemaining = 30000000 ∧ sumGasUsed data.txs = 40021000 ∧
      data.gasRemaining = 18446744073699530616 ∧
      ¬ Accounted s.ctx.blockEnv.gasLimit seq data := by
  have hview : (runSteps (processStep plainCrates) (plainProcess false)
      (depositsArrive 2 ++ [.simResult (bigResult 3), .simResult (bigResult 5)])).bind
        (·.sequencer.bind gasView) =
        some ⟨30000000, true, 0, 30000000, 18446744073699530616,
          [(21000, 50000), (20000000, 20000000), (20000000, 20000000)]⟩ := by
    decide +kernel
  obtain ⟨p, hrun, hp⟩ := Option.bind_eq_some_iff.mp hview
  obtain ⟨s, hs, hgas⟩ := Option.bind_eq_some_iff.mp hp
  obtain ⟨seq, data, hstate, hlimit, hforced, -, hseq, hremaining, htxs⟩ := sorting_of_gasView hgas
  dsimp only at htxs
  have hmap : ∀ P : UInt64 × UInt64 → Prop,
      (∀ t ∈ data.txs, P (t.gasUsed, t.tx.gasLimit)) ↔
        ∀ x ∈ [((21000 : UInt64), (50000 : UInt64)), (20000000, 20000000), (20000000, 20000000)],
          P x := by
    intro P
    rw [← htxs, List.forall_mem_map]
  have hsum : sumGasUsed data.txs = 40021000 := by
    have hgasUsed := congrArg (List.map Prod.fst) htxs
    rw [List.map_map] at hgasUsed
    rw [sumGasUsed]
    exact (congrArg List.sum hgasUsed).trans (by decide)
  refine ⟨p, s, seq, data, hrun, hs, hstate, of_decide_eq_true hforced, ?_, hseq, hsum, hremaining,
    ?_⟩
  · rw [hlimit]
    refine (hmap fun x => x.1 ≤ x.2 ∧ x.2 ≤ 30000000).mpr ?_
    simp only [List.mem_cons, List.not_mem_nil, or_false, forall_eq_or_imp, forall_eq]
    decide
  · intro hacc
    have hsorted := hacc.sorted
    rw [hremaining, hseq] at hsorted
    have hle : (18446744073699530616 : UInt64).toNat ≤ (30000000 : UInt64).toNat :=
      (Nat.le_add_right _ _).trans_eq hsorted
    exact absurd hle (by decide)

end BasedOp.Analysis.GasAccounting
