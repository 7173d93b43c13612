import BasedOp.Analysis.PreconfRuns

/-!
# What pruning drops

`prune` is called for every env that is forwarded and for every L2 block. It compares a
wrapped difference with its window, so a block below the one that was pruned last looks
far ahead of it. The calls of an event are given by `Prunes`. As long as each of them is at
a block that is not below the last one, the cut-off only moves forward and lies two
blocks behind.
-/

set_option autoImplicit false

namespace BasedOp.Analysis.PreconfPruning

open Model Model.OpNode
open PreconfActivation PreconfRuns

/-! ## The calls of prune -/

/-- While a message is put, `prune` is called at a block, on a state.
SRCLINE: preconf.go:127-129 -/
inductive PutPrunes : PreconfState → Message → PreconfState → UInt64 → Prop
  | here {s : PreconfState} {sEnv : SignedEnv} (hready : ready (cursors s) (.env sEnv)) :
      PutPrunes s (.env sEnv) ({ s with lastEnvSent := some sEnv.env.number }.send (.env sEnv))
        sEnv.env.number
  | next {s s' t : PreconfState} {m m' : Message} {n : UInt64}
      (hbody : s.putBody m = (s', some m')) (hput : PutPrunes s' m' t n) : PutPrunes s m t n

/-- The state in which an L2 block prunes.
SRCLINE: preconf.go:192-198 -/
def beforePrune (s : PreconfState) (block : L2BlockRef) : PreconfState :=
  match { s with lastL2BlockSent := some block.number }.takePendingEnv block.number with
  | (s, some nextEnv) => s.put nextEnv
  | (s, none) => s

/-- While an event is handled, `prune` is called at a block, on a state.
SRCLINE: preconf.go:127-129,192-201 -/
inductive Prunes (s : PreconfState) : Event → PreconfState → UInt64 → Prop
  | message {m : Message} {t : PreconfState} {n : UInt64} (hput : PutPrunes s m t n) :
      Prunes s (.message m) t n
  | pendingEnv {block : L2BlockRef} {s' t : PreconfState} {m : Message} {n : UInt64}
      (htake : { s with lastL2BlockSent := some block.number }.takePendingEnv block.number =
        (s', some m)) (hput : PutPrunes s' m t n) : Prunes s (.l2Block block) t n
  | l2Block (block : L2BlockRef) : Prunes s (.l2Block block) (beforePrune s block) block.number

/-- An L2 block ends in pruning. -/
theorem putL2Block_eq (s : PreconfState) (block : L2BlockRef) :
    s.putL2Block block = (beforePrune s block).prune block.number := rfl

/-! ## One call -/

/-- What pruning does to the bound. -/
theorem lastBlockPruned_prune (s : PreconfState) (n : UInt64) :
    (s.prune n).lastBlockPruned =
      if prunes (cursors s) n then n - pruneSafeWindow else s.lastBlockPruned := by
  unfold PreconfState.prune prunes
  by_cases h : n - s.lastBlockPruned < 2 * pruneSafeWindow <;> simp [h, cursors]

variable {s : PreconfState} {n : UInt64} {m : Message}

/-- At a block that is not below the last one nothing wraps. -/
theorem cutOff_of_le (hle : s.lastBlockPruned ≤ n) (hprunes : prunes (cursors s) n) :
    s.lastBlockPruned ≤ n - pruneSafeWindow ∧ (n - pruneSafeWindow).toNat + 2 = n.toNat := by
  have hwindow : 4 ≤ (n - s.lastBlockPruned).toNat :=
    UInt64.le_iff_toNat_le.mp (UInt64.not_lt.mp hprunes)
  rw [UInt64.toNat_sub_of_le _ _ hle] at hwindow
  have htwo : pruneSafeWindow ≤ n := by
    rw [UInt64.le_iff_toNat_le]
    have : pruneSafeWindow.toNat = 2 := rfl
    omega
  have hsub : (n - pruneSafeWindow).toNat = n.toNat - 2 := UInt64.toNat_sub_of_le _ _ htwo
  refine ⟨?_, by omega⟩
  rw [UInt64.le_iff_toNat_le, hsub]
  omega

/-- Pruning raises the bound. -/
theorem lastBlockPruned_le_prune (hle : s.lastBlockPruned ≤ n) :
    s.lastBlockPruned ≤ (s.prune n).lastBlockPruned := by
  rw [lastBlockPruned_prune]
  split
  · rename_i hprunes
    exact (cutOff_of_le hle hprunes).1
  · exact UInt64.le_refl _

/-- Nothing is dropped but what is more than two blocks behind. -/
theorem lt_of_dropped {κ : Key} (hle : s.lastBlockPruned ≤ n) (hpending : pending s κ = some m)
    (hdropped : pending (s.prune n) κ = none) : κ.block.toNat + 2 < n.toNat := by
  rw [pending_prune] at hdropped
  split at hdropped
  · rename_i hold
    have hcut := (cutOff_of_le hle hold.1).2
    have hlt := UInt64.lt_iff_toNat_lt.mp hold.2
    omega
  · rw [hpending] at hdropped
    cases hdropped

/-! ## Whole runs -/

/-- Every call of `prune` that an event makes is at a block that is not below the last. -/
def PrunesForward (s : PreconfState) (e : Event) : Prop :=
  ∀ t n, Prunes s e t n → t.lastBlockPruned ≤ n

/-- A message raises the bound. -/
theorem lastBlockPruned_putBody (h : ∀ t n, PutPrunes s m t n → t.lastBlockPruned ≤ n) :
    s.lastBlockPruned ≤ (s.putBody m).1.lastBlockPruned := by
  have hforward : ready (cursors s) m → s.lastBlockPruned ≤ (forward s m).lastBlockPruned := by
    intro hready
    cases m with
    | env => exact lastBlockPruned_le_prune (h _ _ (.here hready))
    | newFrag =>
      unfold forward
      dsimp only
      split <;> exact UInt64.le_refl _
    | sealFrag => exact UInt64.le_refl _
  have hforget : ∀ (s : PreconfState) (κ : Key),
      (forget s κ).lastBlockPruned = s.lastBlockPruned :=
    fun s κ => congrArg Cursors.lastBlockPruned (cursors_forget s κ)
  have hkeep : (keep s m).lastBlockPruned = s.lastBlockPruned :=
    congrArg Cursors.lastBlockPruned (cursors_keep s m)
  obtain ⟨hready, m', -, hbody⟩ | ⟨hready, hbody⟩ | ⟨-, hbody⟩ | ⟨-, hbody⟩ := putBody_cases s m
  · rw [hbody, hforget]
    exact hforward hready
  · rw [hbody]
    exact hforward hready
  · rw [hbody, hkeep]
    exact UInt64.le_refl _
  · rw [hbody]
    exact UInt64.le_refl _

/-- The cascade of a message, by its activations. -/
theorem lastBlockPruned_put (h : ∀ t n, PutPrunes s m t n → t.lastBlockPruned ≤ n) :
    s.lastBlockPruned ≤ (s.put m).lastBlockPruned := by
  refine PreconfState.cascade.run_induction
    (fun s' m' => s.lastBlockPruned ≤ s'.lastBlockPruned ∧
      ∀ t n, PutPrunes s' m' t n → t.lastBlockPruned ≤ n)
    (fun s' => s.lastBlockPruned ≤ s'.lastBlockPruned) ?_ ?_ s m ⟨UInt64.le_refl _, h⟩
  · rintro s' m' ⟨hle, hcalls⟩ -
    exact UInt64.le_trans hle (lastBlockPruned_putBody hcalls)
  · rintro s' m' m'' ⟨hle, hcalls⟩ hnext
    refine ⟨UInt64.le_trans hle (lastBlockPruned_putBody hcalls), ?_⟩
    intro t n hput
    exact hcalls t n (.next (Prod.ext rfl hnext) hput)

/-- Taking an env does not touch it. -/
theorem lastBlockPruned_takePendingEnv (s : PreconfState) (key : UInt64) :
    (s.takePendingEnv key).1.lastBlockPruned = s.lastBlockPruned := by
  unfold PreconfState.takePendingEnv
  split <;> rfl

/-- No event lowers the bound. -/
theorem lastBlockPruned_handle {e : Event} (h : PrunesForward s e) :
    s.lastBlockPruned ≤ (handle s e).lastBlockPruned := by
  cases e with
  | message =>
    rw [handle_message]
    exact lastBlockPruned_put fun t n hput => h t n (.message hput)
  | l2Block block =>
    rw [handle_l2Block, putL2Block_eq]
    refine UInt64.le_trans ?_ (lastBlockPruned_le_prune (h _ _ (.l2Block block)))
    have htaken := lastBlockPruned_takePendingEnv
      { s with lastL2BlockSent := some block.number } block.number
    unfold beforePrune
    split
    · rename_i s' m htake
      rw [htake] at htaken
      rw [← show s'.lastBlockPruned = s.lastBlockPruned from htaken]
      exact lastBlockPruned_put fun t n hput => h t n (.pendingEnv htake hput)
    · rename_i s' htake
      rw [htake] at htaken
      exact UInt64.le_of_eq htaken.symm

/-- A run of two parts. -/
theorem preconfHandler_append (s : PreconfState) (pre later : List Event) :
    preconfHandler s (pre ++ later) = preconfHandler (preconfHandler s pre) later :=
  List.foldl_append

/-- Every call of `prune` in a run is at a block that is not below the last. -/
def RunPrunesForward (s : PreconfState) (events : List Event) : Prop :=
  ∀ pre e later, events = pre ++ e :: later → PrunesForward (preconfHandler s pre) e

/-- The empty run. -/
theorem runPrunesForward_nil (s : PreconfState) : RunPrunesForward s [] := by
  intro pre e later heq
  exact absurd heq (by simp)

variable {events : List Event}

/-- A run by its first event. -/
theorem runPrunesForward_cons {e : Event} (hfirst : PrunesForward s e)
    (hrest : RunPrunesForward (handle s e) events) :
    RunPrunesForward s (e :: events) := by
  intro pre e' later heq
  cases pre with
  | nil =>
    obtain ⟨rfl, -⟩ := List.cons.inj heq
    exact hfirst
  | cons e'' pre =>
    obtain ⟨rfl, hevents⟩ := List.cons.inj heq
    exact hrest pre e' later hevents

/-- No run lowers the bound. -/
theorem lastBlockPruned_preconfHandler (h : RunPrunesForward s events) :
    s.lastBlockPruned ≤ (preconfHandler s events).lastBlockPruned := by
  induction events generalizing s with
  | nil => exact UInt64.le_refl _
  | cons e events ih =>
    refine UInt64.le_trans (lastBlockPruned_handle (h [] e events rfl)) (ih ?_)
    intro pre e' later heq
    exact h (e :: pre) e' later (by rw [heq]; rfl)

/-- In every run whose calls of `prune` are all at blocks that are not below the one pruned last,
that one never moves back, and every call only drops messages that are more than two blocks behind.
SRCLINE: preconf.go:124-141,191-233 -/
theorem prunes_onlyOld {events : List Event} (h : RunPrunesForward newPreconfState events) :
    (∀ pre later, events = pre ++ later →
      (preconfHandler newPreconfState pre).lastBlockPruned ≤
        (preconfHandler newPreconfState events).lastBlockPruned) ∧
    (∀ pre e later t n, events = pre ++ e :: later →
      Prunes (preconfHandler newPreconfState pre) e t n →
      t.lastBlockPruned ≤ (t.prune n).lastBlockPruned ∧
      ∀ κ m, pending t κ = some m → pending (t.prune n) κ = none →
        κ.block.toNat + 2 < n.toNat) := by
  refine ⟨?_, ?_⟩
  · intro pre later heq
    rw [heq, preconfHandler_append]
    apply lastBlockPruned_preconfHandler
    intro pre' e later' heq'
    rw [← preconfHandler_append]
    exact h (pre ++ pre') e later' (by rw [heq, heq', List.append_assoc])
  · intro pre e later t n heq hprunes
    have hle := h pre e later heq t n hprunes
    refine ⟨lastBlockPruned_le_prune hle, ?_⟩
    intro κ m hpending hdropped
    exact lt_of_dropped hle hpending hdropped

/-- An L2 block, and the env of the block after it. -/
def blockThenEnv : List Event := [.l2Block ⟨10⟩, .message (.env (blankEnv 11))]

/-- An L2 block and then an env. -/
theorem prunes_onlyOld_blockThenEnv :
    RunPrunesForward newPreconfState blockThenEnv ∧
      (preconfHandler newPreconfState (blockThenEnv.take 1)).lastBlockPruned ≤
        (preconfHandler newPreconfState blockThenEnv).lastBlockPruned := by
  have hempty : (newPreconfState.takePendingEnv 10).2 = none := by decide +kernel
  have hstops : ((preconfHandler newPreconfState [.l2Block ⟨10⟩]).putBody
      (.env (blankEnv 11))).2 = none := by
    decide +kernel
  have hfirst : PrunesForward newPreconfState (.l2Block ⟨10⟩) := by
    intro t n hprunes
    cases hprunes with
    | pendingEnv htake =>
      have htaken := congrArg Prod.snd htake
      exact absurd (hempty.symm.trans htaken) (by simp)
    | l2Block => decide +kernel
  have hsecond : PrunesForward (preconfHandler newPreconfState [.l2Block ⟨10⟩])
      (.message (.env (blankEnv 11))) := by
    intro t n hprunes
    cases hprunes with
    | message hput =>
      cases hput with
      | here => decide +kernel
      | next hbody =>
        rw [hbody] at hstops
        cases hstops
  have hrun : RunPrunesForward newPreconfState blockThenEnv :=
    runPrunesForward_cons hfirst (runPrunesForward_cons hsecond (runPrunesForward_nil _))
  exact ⟨hrun, (prunes_onlyOld hrun).1 _ (blockThenEnv.drop 1) rfl⟩

/-- A block below the one that was pruned last moves the cut-off back, and the first blocks
drop every message.
SRCLINE: preconf.go:208-213 -/
theorem prunes_back :
    ¬ (preconfHandler newPreconfState [.l2Block ⟨100⟩]).lastBlockPruned ≤
      (preconfHandler newPreconfState [.l2Block ⟨100⟩, .l2Block ⟨50⟩]).lastBlockPruned ∧
    ∃ t, Prunes (preconfHandler newPreconfState
        [.l2Block ⟨100⟩, .message (.sealFrag (blankSeal 100))]) (.l2Block ⟨1⟩) t 1 ∧
      pending t (.sealFrag 100) = some (.sealFrag (blankSeal 100)) ∧
      pending (t.prune 1) (.sealFrag 100) = none := by
  refine ⟨by decide +kernel, _, .l2Block ⟨1⟩, ?_, ?_⟩
  · decide +kernel
  · decide +kernel

end BasedOp.Analysis.PreconfPruning
