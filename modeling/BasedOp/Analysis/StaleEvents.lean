import BasedOp.Analysis.ActiveIndex
import BasedOp.Analysis.SimulatedState

/-!
# Stale results and other heads

Two handlers decide by a comparison whether an event is of the present. A result of a
simulation carries the id of the state it was made on, and is to be without effect when
that state is no more; the handler asks for the id everywhere but where the simulation for
the pool has failed, and then removes transactions from it (`unchanged_iff_of_stale`). A
fork choice for another head is to end the block that is being built; the handler returns
before the branch that does so (`forkChoice_ignored`).
-/

set_option autoImplicit false

namespace BasedOp.Analysis.StaleEvents

open BasedOp.Computation Model Model.Gateway
open PoolContents ActiveIndex

/-! ## Removals that remove nothing -/

/-- The first transaction of a list has a higher nonce. -/
def FirstAbove (l : TxList) (nonce : UInt64) : Prop := ∃ t, l.peek = some t ∧ nonce < t.nonce

/-- Dropping does not lengthen. -/
theorem length_dropThrough_le (nonce : UInt64) (txs : List Transaction) :
    (TxList.dropThrough nonce txs).length ≤ txs.length := by
  induction txs with
  | nil => exact Nat.le_refl _
  | cons t txs ih =>
    unfold TxList.dropThrough
    split
    · exact Nat.le_succ _
    · exact Nat.le_succ_of_le ih

/-- A list is left as it is just when its first transaction has a higher nonce; an
empty one is reported to be empty. -/
theorem forward_eq_iff (l : TxList) (nonce : UInt64) :
    l.forward nonce = (false, l) ↔ FirstAbove l nonce := by
  unfold TxList.forward FirstAbove TxList.peek
  cases htxs : l.txs with
  | nil => simp [TxList.dropThrough]
  | cons first rest =>
    by_cases hfirst : nonce < first.nonce
    · simp [hfirst]
    · have hshort : TxList.dropThrough nonce (first :: rest) ≠ first :: rest := by
        intro heq
        have hlength := congrArg List.length heq
        unfold TxList.dropThrough at hlength
        split at hlength
        · simp at hlength
        · have hle := length_dropThrough_le nonce rest
          rw [hlength, List.length_cons] at hle
          omega
      constructor
      · intro heq
        rw [if_neg (by simpa using hfirst)] at heq
        have hsame := congrArg (fun r => r.2.txs) heq
        exact absurd (hsame.trans htxs) hshort
      · rintro ⟨t, ht, hlt⟩
        obtain rfl := Option.some.inj ht
        exact absurd hlt hfirst

/-- A list of which something stays pending is left as it is just when all of it
has higher nonces. -/
theorem keptAbove_eq_iff {l : SimulatedTxList} {nonce : UInt64}
    (hforward : (l.pending.forward nonce).1 = false) :
    keptAbove l nonce = l ↔
      FirstAbove l.pending nonce ∧ ∀ c ∈ l.current, nonce < c.nonce := by
  rw [← forward_eq_iff]
  constructor
  · intro heq
    refine ⟨Prod.ext hforward (congrArg SimulatedTxList.pending heq), ?_⟩
    intro c hc
    have hcurrent : l.current.filter (fun c => nonce < c.nonce) = l.current :=
      congrArg SimulatedTxList.current heq
    rw [← hcurrent] at hc
    exact of_decide_eq_true (Option.mem_filter_iff.mp hc).2
  · rintro ⟨hpending, hcurrent⟩
    have hsame : l.current.filter (fun c => nonce < c.nonce) = l.current := by
      cases hc : l.current with
      | none => rfl
      | some c => exact Option.filter_some_pos (decide_eq_true (hcurrent c hc))
    unfold keptAbove
    rw [hpending, hsame]

/-- The active list has no transaction of a sender up to a nonce: it has no entry for it,
or one that a removal of the nonce leaves as it is. -/
def NoneActive (a : Active) (sender : Address) (nonce : UInt64) : Prop :=
  ∀ i, a.senders.lookup sender = some i → ∃ l, a.txs[i]? = some l ∧ FirstAbove l.pending nonce ∧
    ∀ c ∈ l.current, nonce < c.nonce

/-- What can be read of the active list. -/
structure SameActive (a a' : Active) : Prop where
  txs : a'.txs = a.txs
  senders : ∀ sender, a'.senders.lookup sender = a.senders.lookup sender

/-- Setting the same changes nothing. -/
theorem set_eq_self_iff {α : Type} {xs : List α} {i : ℕ} {x : α} (h : xs[i]? = some x) (y : α) :
    xs.set i y = xs ↔ y = x := by
  obtain ⟨hi, rfl⟩ := List.getElem?_eq_some_iff.mp h
  constructor
  · intro heq
    have hat : (xs.set i y)[i]? = xs[i]? := by rw [heq]
    rw [List.getElem?_set_self hi, h] at hat
    exact Option.some.inj hat
  · intro heq
    rw [heq]
    exact List.set_getElem_self hi

/-- A removal shortens the list. -/
theorem length_of_remove {a a' : Active} {i : ℕ} {sender : Address}
    (h : a.remove i sender = some a') : a'.txs.length < a.txs.length := by
  have hlength := length_swapRemove a.txs i
  unfold Active.remove at h
  split at h
  · rename_i hi
    dsimp only at h
    split at h
    · rw [← Option.some.inj h]
      dsimp only
      omega
    · split at h
      · cases h
      · split at h
        · cases h
        · rw [← Option.some.inj h]
          dsimp only
          omega
  · cases h

/-- A removal leaves the active list as it is just when it has nothing to remove. -/
theorem sameActive_forward_iff (a : Active) (sender : Address) (nonce : UInt64) :
    (∃ a', a.forward sender nonce = some a' ∧ SameActive a a') ↔ NoneActive a sender nonce := by
  unfold NoneActive
  cases hindex : a.senders.lookup sender with
  | none =>
    rw [forward_of_none hindex]
    constructor
    · intro _ i hi
      cases hi
    · intro _
      exact ⟨a, rfl, rfl, fun _ => rfl⟩
  | some i =>
    cases hl : a.txs[i]? with
    | none =>
      constructor
      · rintro ⟨a', h, -⟩
        unfold Active.forward at h
        rw [hindex] at h
        dsimp only at h
        rw [hl] at h
        cases h
      · intro h
        obtain ⟨l, hl', -⟩ := h i rfl
        rw [hl] at hl'
        cases hl'
    | some l =>
      cases hforward : (l.pending.forward nonce).1 with
      | false =>
        have hset := set_eq_self_iff hl (keptAbove l nonce)
        rw [forward_of_kept hindex hl hforward]
        constructor
        · rintro ⟨a', h, hsame⟩ j hj
          obtain rfl := Option.some.inj hj
          obtain rfl := Option.some.inj h
          exact ⟨l, hl, (keptAbove_eq_iff hforward).mp (hset.mp hsame.txs)⟩
        · intro h
          obtain ⟨l', hl', habove⟩ := h i rfl
          obtain rfl := Option.some.inj (hl.symm.trans hl')
          exact ⟨_, rfl, hset.mpr ((keptAbove_eq_iff hforward).mpr habove), fun _ => rfl⟩
      | true =>
        rw [forward_of_emptied hindex hl hforward]
        constructor
        · rintro ⟨a', h, hsame⟩
          have hlt := length_of_remove h
          dsimp only at hlt
          rw [List.length_set, hsame.txs] at hlt
          exact absurd hlt (Nat.lt_irrefl _)
        · intro h
          obtain ⟨l', hl', habove, -⟩ := h i rfl
          obtain rfl := Option.some.inj (hl.symm.trans hl')
          rw [(forward_eq_iff _ _).mpr habove] at hforward
          cases hforward

/-- What can be read of the pool. -/
structure SamePool (pool pool' : TxPool) : Prop where
  poolData : ∀ sender, pool'.poolData.lookup sender = pool.poolData.lookup sender
  activeTxs : SameActive pool.activeTxs pool'.activeTxs

/-- A pool is the same as itself. -/
theorem SamePool.refl (pool : TxPool) : SamePool pool pool := ⟨fun _ => rfl, rfl, fun _ => rfl⟩

/-- Neither the pool nor the active list has anything of a sender up to a nonce. -/
structure NothingUpTo (pool : TxPool) (sender : Address) (nonce : UInt64) : Prop where
  poolData : ∀ l, pool.poolData.lookup sender = some l → FirstAbove l nonce
  activeTxs : NoneActive pool.activeTxs sender nonce

/-- A removal leaves the pool as it is just when there is nothing to remove. -/
theorem samePool_remove_iff (pool : TxPool) (sender : Address) (nonce : UInt64) :
    (∃ pool', pool.remove sender nonce = some pool' ∧ SamePool pool pool') ↔
      NothingUpTo pool sender nonce := by
  have hactive := sameActive_forward_iff pool.activeTxs sender nonce
  constructor
  · rintro ⟨pool', hremove, hsame⟩
    unfold TxPool.remove at hremove
    dsimp only at hremove
    obtain ⟨active, hforward, rfl⟩ := Option.map_eq_some_iff.mp hremove
    refine ⟨?_, hactive.mp ⟨active, hforward, hsame.activeTxs⟩⟩
    intro l hl
    have hlookup := hsame.poolData sender
    dsimp only at hlookup
    rw [hl] at hlookup
    dsimp only at hlookup
    rcases hl' : l.forward nonce with ⟨_ | _, l'⟩
    · rw [hl'] at hlookup
      dsimp only at hlookup
      rw [AList.lookup_insert] at hlookup
      obtain rfl := Option.some.inj hlookup
      exact (forward_eq_iff _ _).mp hl'
    · rw [hl'] at hlookup
      dsimp only at hlookup
      rw [AList.lookup_erase] at hlookup
      cases hlookup
  · rintro ⟨hdata, hnone⟩
    obtain ⟨active, hforward, hsame⟩ := hactive.mpr hnone
    unfold TxPool.remove
    dsimp only
    rw [hforward]
    refine ⟨_, rfl, ?_, hsame⟩
    intro other
    dsimp only
    cases hl : pool.poolData.lookup sender with
    | none => rfl
    | some l =>
      dsimp only
      rw [(forward_eq_iff l nonce).mpr (hdata l hl)]
      dsimp only
      by_cases hother : other = sender
      · rw [hother, AList.lookup_insert, hl]
      · rw [AList.lookup_insert_ne hother]

/-! ## Results -/

variable {S : Type}

/-- The state that a result was made on is no more: the database of the frag that is being
sorted, or the shared state for one of the pool's.
SRCLINE: sorting_data.rs:143-145, frag.rs:43-45 -/
def Stale (s : Sequencer S) (result : SimulatorToSequencer) : Prop :=
  match result.msg with
  | .tx _ => ∀ seq data, s.state = .sorting seq data → data.isValid result.stateId = false
  | .txPoolTopOfFrag _ => s.ctx.sharedState.db.isValid result.stateId = false

/-- The state of the sequencer, the pool and the shared state are as they were. -/
def Unchanged (s : Sequencer S) (h : Handled S) : Prop :=
  ∃ s', h.next = some s' ∧ s'.state = s.state ∧ SamePool s.ctx.txPool s'.ctx.txPool ∧
    s'.ctx.sharedState = s.ctx.sharedState

/-- Going to the same state. -/
theorem unchanged_goto (s : Sequencer S) (sent : List Output) :
    Unchanged s (Sequencer.goto s.state s.ctx sent) :=
  ⟨_, rfl, rfl, SamePool.refl _, rfl⟩

/-- A result for the frag that is being sorted is checked before it is looked at. -/
theorem unchanged_of_stale_tx {s : Sequencer S} {result : SimulatorToSequencer}
    {simulatedTx : Except SimulationError SimulatedTx} (hstale : Stale s result)
    (hmsg : result.msg = .tx simulatedTx) : Unchanged s (s.handleSimResult result) := by
  unfold Stale at hstale
  unfold Sequencer.handleSimResult
  rw [hmsg] at hstale ⊢
  dsimp only at hstale ⊢
  cases hstate : s.state with
  | sorting seq data =>
    dsimp only
    rw [hstale seq data hstate, ← hstate]
    exact unchanged_goto s []
  | _ =>
    dsimp only
    rw [← hstate]
    exact unchanged_goto s []

/-- A result that is stale has no effect just when it is not that of a failed simulation for
the pool, or the pool has nothing that such a result removes.
SRCLINE: sequencer/src/lib.rs:425-457, transaction/pool.rs:109-118 -/
theorem unchanged_iff_of_stale {s : Sequencer S} {result : SimulatorToSequencer}
    (hstale : Stale s result) :
    Unchanged s (s.handleSimResult result) ↔
      (∀ err, result.msg ≠ .txPoolTopOfFrag (.error err)) ∨
        NothingUpTo s.ctx.txPool result.senderInfo.1 result.senderInfo.2 := by
  cases hmsg : result.msg with
  | tx =>
    refine iff_of_true (unchanged_of_stale_tx hstale hmsg) (.inl ?_)
    rintro err ⟨⟩
  | txPoolTopOfFrag simulatedTx =>
    unfold Stale at hstale
    unfold Sequencer.handleSimResult
    rw [hmsg] at hstale ⊢
    dsimp only at hstale ⊢
    cases simulatedTx with
    | ok =>
      dsimp only
      rw [hstale]
      refine iff_of_true (unchanged_goto s []) (.inl ?_)
      rintro err ⟨⟩
    | error err =>
      dsimp only
      constructor
      · rintro ⟨s', hnext, -, hsame, -⟩
        refine .inr ((samePool_remove_iff _ _ _).mp ?_)
        cases hremove : s.ctx.txPool.remove result.senderInfo.1 result.senderInfo.2 with
        | none =>
          rw [hremove] at hnext
          cases hnext
        | some pool =>
          rw [hremove] at hnext
          obtain rfl := Option.some.inj hnext
          exact ⟨pool, rfl, hsame⟩
      · rintro (hnot | hnothing)
        · exact absurd rfl (hnot err)
        · obtain ⟨pool, hremove, hsame⟩ := (samePool_remove_iff _ _ _).mpr hnothing
          rw [hremove]
          exact ⟨_, rfl, rfl, hsame, rfl⟩

/-! ## Fork choices -/

variable (crates : Crates S)

/-- The block that is being built is abandoned: the sequencer goes on to sync, asks for
blocks, and its pool is what it is once every transaction of the frags that is not a deposit
was handed to it. -/
structure Abandons (s : Sequencer S) (seq : FragSequence) (h : Handled S) : Prop where
  syncs : ∃ s' last, h.next = some s' ∧ s'.state = .syncing last
  fetches : ∃ start stop, .blockFetch start stop ∈ h.sent
  handsBack : ∃ s' ctx requests, h.next = some s' ∧
    Sequencer.handBack crates (seq.txs.filter fun t => !t.tx.isDeposit) s.ctx =
      some (ctx, requests) ∧ s'.ctx.txPool = ctx.txPool

/-- Another head is ignored. -/
theorem handleForkChoice_of_ne (s : Sequencer S) {headBlockHash : Hash}
    (hhead : headBlockHash ≠ s.ctx.db.headBlockHash) (attributes : Option OpPayloadAttributes)
    (now : ℕ) :
    s.handleForkChoiceUpdatedEngineApi crates headBlockHash attributes now =
      Sequencer.goto s.state s.ctx [] := by
  unfold Sequencer.handleForkChoiceUpdatedEngineApi
  dsimp only
  rw [if_pos (Ne.symm hhead)]

/-- Sorting on abandons nothing. -/
theorem not_abandons_sorting (s : Sequencer S) (seq seq' : FragSequence) (data : SortingData)
    (ctx : SequencerContext S) (sent : List Output) :
    ¬ Abandons crates s seq (Sequencer.goto (.sorting seq' data) ctx sent) := by
  rintro ⟨⟨s', last, hnext, hsyncing⟩, -, -⟩
  obtain rfl := Option.some.inj hnext
  cases hsyncing

/-- While a block is being built, no fork choice for another head ends it: nothing is sent
and nothing changes.
SRCLINE: sequencer/src/lib.rs:255-258,302-314 -/
theorem forkChoice_ignored {s : Sequencer S} {seq : FragSequence} {data : SortingData}
    (hstate : s.state = .sorting seq data) {headBlockHash : Hash}
    (hhead : headBlockHash ≠ s.ctx.db.headBlockHash) (attributes : Option OpPayloadAttributes)
    (now : ℕ) :
    s.handleForkChoiceUpdatedEngineApi crates headBlockHash attributes now =
        Sequencer.goto (.sorting seq data) s.ctx [] ∧
      ¬ Abandons crates s seq
        (s.handleForkChoiceUpdatedEngineApi crates headBlockHash attributes now) := by
  have hignored := handleForkChoice_of_ne crates s hhead attributes now
  rw [hstate] at hignored
  refine ⟨hignored, ?_⟩
  rw [hignored]
  exact not_abandons_sorting crates s seq seq data s.ctx []

/-! ## A gateway to run them on -/

/-- A gateway that has put a transaction into a frag of the block it is building. -/
def oneFragged : Option (World ℕ) :=
  runSteps (World.step plainCrates) (plainWorld false)
    (SimulatedState.oneRound ++ [.sequencer (.tick 2), .sequencer (.tick 100)])

/-- The transactions in the frags of the block that is being built, and whether the head of
the database is one that no fork choice of these runs names. -/
def fraggedView (w : World ℕ) : Option (List Transaction × Bool) :=
  match w.sequencer.state with
  | .sorting seq _ => some (seq.txs.map (·.tx), decide (5 ≠ w.sequencer.ctx.db.headBlockHash))
  | _ => none

/-- The example has a frag. -/
theorem oneFragged_sorting :
    ∃ w seq data, oneFragged = some w ∧ w.sequencer.state = .sorting seq data ∧
      seq.txs.map (·.tx) = [plainRawTx [0]] ∧ 5 ≠ w.sequencer.ctx.db.headBlockHash := by
  have hview : oneFragged.bind fraggedView = some ([plainRawTx [0]], true) := by decide +kernel
  obtain ⟨w, hrun, hw⟩ := Option.bind_eq_some_iff.mp hview
  unfold fraggedView at hw
  split at hw
  · rename_i seq data hstate
    obtain ⟨htxs, hhead⟩ := Prod.mk.inj (Option.some.inj hw)
    exact ⟨w, seq, data, hrun, hstate, htxs, of_decide_eq_true hhead⟩
  · cases hw

/-- Another head while sorting. -/
theorem forkChoice_ignored_oneFragged :
    ∃ w seq data, oneFragged = some w ∧ w.sequencer.state = .sorting seq data ∧
      seq.txs.map (·.tx) = [plainRawTx [0]] ∧
      w.sequencer.handleForkChoiceUpdatedEngineApi plainCrates 5 none 0 =
        Sequencer.goto (.sorting seq data) w.sequencer.ctx [] := by
  obtain ⟨w, seq, data, hrun, hstate, htxs, hhead⟩ := oneFragged_sorting
  exact ⟨w, seq, data, hrun, hstate, htxs,
    (forkChoice_ignored plainCrates hstate hhead none 0).1⟩

/-- A block with a frag goes on being built when the fork choice names another head.
SRCLINE: sequencer/src/lib.rs:255-258 -/
theorem forkChoice_not_abandons :
    ∃ w seq data, oneFragged = some w ∧ w.sequencer.state = .sorting seq data ∧
      seq.txs.map (·.tx) = [plainRawTx [0]] ∧ 5 ≠ w.sequencer.ctx.db.headBlockHash ∧
      ¬ Abandons plainCrates w.sequencer seq
        (w.sequencer.handleForkChoiceUpdatedEngineApi plainCrates 5 none 0) := by
  obtain ⟨w, seq, data, hrun, hstate, htxs, hhead⟩ := oneFragged_sorting
  refine ⟨w, seq, data, hrun, hstate, htxs, hhead, ?_⟩
  rw [handleForkChoice_of_ne plainCrates w.sequencer hhead, hstate]
  exact not_abandons_sorting plainCrates w.sequencer seq seq data w.sequencer.ctx []

/-- A gateway that a transaction was submitted to. -/
def oneSubmittedTo : Option (Sequencer ℕ) :=
  (runSteps (processStep plainCrates) (plainProcess false) [.newTx (plainRawTx [0])]).bind
    (·.sequencer)

/-- The result of a simulation for the pool, on a state that there is none of. -/
def staleResult (outcome : Except SimulationError SimulatedTx) : SimulatorToSequencer where
  senderInfo := (7, 0)
  stateId := 12345
  msg := .txPoolTopOfFrag outcome

/-- A stale success. -/
theorem unchanged_iff_of_stale_ok :
    ∃ s, oneSubmittedTo = some s ∧ ∀ tx, Stale s (staleResult (.ok tx)) ∧
      Unchanged s (s.handleSimResult (staleResult (.ok tx))) := by
  have hview : oneSubmittedTo.map (fun s => s.ctx.sharedState.db.isValid 12345) = some false := by
    decide +kernel
  obtain ⟨s, hs, hinvalid⟩ := Option.map_eq_some_iff.mp hview
  refine ⟨s, hs, fun tx => ?_⟩
  have hstale : Stale s (staleResult (.ok tx)) := hinvalid
  exact ⟨hstale, (unchanged_iff_of_stale hstale).mpr (.inl fun _ heq => nomatch heq)⟩

/-- A failed simulation for the pool removes its transaction, on whatever state it failed.
SRCLINE: sequencer/src/lib.rs:450-452 -/
theorem stale_error_removes :
    ∃ s, oneSubmittedTo = some s ∧ Stale s (staleResult (.error .zeroPayment)) ∧
      ¬ Unchanged s (s.handleSimResult (staleResult (.error .zeroPayment))) := by
  have hview : oneSubmittedTo.map (fun s => (s.ctx.sharedState.db.isValid 12345,
      s.ctx.txPool.poolData.lookup 7,
      (s.handleSimResult (staleResult (.error .zeroPayment))).next.map
        (·.ctx.txPool.poolData.lookup 7))) =
      some (false, some (.fromTx (plainRawTx [0])), some none) := by
    decide +kernel
  obtain ⟨s, hs, heq⟩ := Option.map_eq_some_iff.mp hview
  obtain ⟨hinvalid, heq⟩ := Prod.mk.inj heq
  obtain ⟨hbefore, hafter⟩ := Prod.mk.inj heq
  refine ⟨s, hs, hinvalid, ?_⟩
  rintro ⟨s', hnext, -, hsame, -⟩
  rw [hnext] at hafter
  have hgone : s'.ctx.txPool.poolData.lookup 7 = none := Option.some.inj hafter
  rw [hsame.poolData 7, hbefore] at hgone
  cases hgone

end BasedOp.Analysis.StaleEvents
