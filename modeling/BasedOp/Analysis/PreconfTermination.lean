import BasedOp.Analysis.PreconfPruning

/-!
# How far one message reaches

A put function only calls another on a message that it has taken out of a pending map, so one
message causes at most one call more than there are messages pending. Every one of these calls
forwards a message to the engine at most once, and only the last of them can leave a message
pending that was not. An L2 block starts from a pending env, if from any.
-/

set_option autoImplicit false

namespace BasedOp.Analysis.PreconfTermination

open BasedOp.Computation Model Model.OpNode
open Model.OpNode.PreconfState
open PreconfActivation PreconfPruning

/-! ## One call -/

/-- Forwarding adds nothing pending. -/
theorem pendingCount_forward_le (s : PreconfState) (m : Message) :
    (forward s m).pendingCount ≤ s.pendingCount := by
  cases m with
  | env => exact pendingCount_prune_le _ _
  | newFrag =>
    unfold forward
    dsimp only
    split <;> exact Nat.le_refl _
  | sealFrag => exact Nat.le_refl _

/-- Keeping adds one. -/
theorem pendingCount_keep_le (s : PreconfState) (m : Message) :
    (keep s m).pendingCount ≤ s.pendingCount + 1 := by
  cases m with
  | env sEnv =>
    have := mapSize_insert_le s.pendingEnvs sEnv.env.number sEnv
    simp only [keep, pendingCount]
    omega
  | newFrag sFrag =>
    have := mapSize_insert_le s.pendingFrags (index sFrag.frag) sFrag
    simp only [keep, pendingCount]
    omega
  | sealFrag sSeal =>
    have := mapSize_insert_le s.pendingSeals sSeal.sealData.blockNumber sSeal
    simp only [keep, pendingCount]
    omega

/-- A call that is the last one leaves at most one message more pending. -/
theorem pendingCount_putBody_le {s : PreconfState} {m : Message} (h : (s.putBody m).2 = none) :
    (s.putBody m).1.pendingCount ≤ s.pendingCount + 1 := by
  rcases putBody_cases s m with ⟨-, m', -, hbody⟩ | ⟨-, hbody⟩ | ⟨-, hbody⟩ | ⟨-, hbody⟩
  · rw [hbody] at h
    cases h
  · rw [hbody]
    exact Nat.le_succ_of_le (pendingCount_forward_le s m)
  · rw [hbody]
    exact pendingCount_keep_le s m
  · rw [hbody]
    exact Nat.le_succ _

/-- One round sends at most one. -/
theorem length_e_putBody_le (s : PreconfState) (m : Message) :
    (s.putBody m).1.e.length ≤ s.e.length + 1 := by
  rw [e_putBody]
  split_ifs
  · rw [List.length_append, List.length_singleton]
  · exact Nat.le_succ _

/-! ## All calls of a message -/

/-- A message adds at most one. -/
theorem pendingCount_put_le (s : PreconfState) (m : Message) :
    (s.put m).pendingCount ≤ s.pendingCount + 1 := by
  -- before every call at most as many messages are pending as at first
  refine cascade.run_induction (fun t _ => t.pendingCount ≤ s.pendingCount)
    (fun t => t.pendingCount ≤ s.pendingCount + 1) ?_ ?_ s m (Nat.le_refl _)
  · intro t m ht hlast
    exact Nat.le_trans (pendingCount_putBody_le hlast) (Nat.succ_le_succ ht)
  · intro t m m' ht hcall
    exact Nat.le_trans (Nat.le_of_lt (pendingCount_putBody_lt t m m' hcall)) ht

/-- At most what was pending is sent with it. -/
theorem length_e_put_le (s : PreconfState) (m : Message) :
    (s.put m).e.length ≤ s.e.length + (s.pendingCount + 1) := by
  obtain ⟨n, hle, hstops⟩ := cascade.exists_stops s m
  have hsent := hstops.le_add (f := fun t => t.e.length) length_e_putBody_le
  exact Nat.le_trans hsent (Nat.add_le_add_left hle _)

/-- An L2 block causes as many calls as there are messages pending, at most. -/
theorem beforePrune_bounds (s : PreconfState) (block : L2BlockRef) :
    s.e <+: (beforePrune s block).e ∧
      (beforePrune s block).e.length ≤ s.e.length + s.pendingCount ∧
      (beforePrune s block).pendingCount ≤ s.pendingCount := by
  unfold beforePrune takePendingEnv
  cases hlook : s.pendingEnvs.lookup block.number with
  | none => exact ⟨List.prefix_rfl, Nat.le_add_right _ _, Nat.le_refl _⟩
  | some sEnv =>
    have hsize := mapSize_erase_of_lookup hlook
    dsimp only
    -- the env is taken out before it is put
    generalize ht : ({ s with
      lastL2BlockSent := some block.number
      pendingEnvs := s.pendingEnvs.erase block.number } : PreconfState) = t
    have hcount : t.pendingCount + 1 = s.pendingCount := by
      rw [← ht]
      simp only [pendingCount]
      omega
    have he : t.e = s.e := by rw [← ht]
    have hsent := length_e_put_le t (.env sEnv)
    have hpending := pendingCount_put_le t (.env sEnv)
    rw [hcount] at hsent hpending
    rw [he] at hsent
    exact ⟨he ▸ e_isPrefix_put t (.env sEnv), hsent, hpending⟩

/-- The put functions of a message return, after one call more than there are messages pending
at most. Whatever event is handled, the engine is called at most that often, and at most one
message more is pending.
SRCLINE: preconf.go:123-201 -/
theorem handle_terminates (s : PreconfState) (event : Event) :
    (∀ m, ∃ n ≤ s.pendingCount + 1, Cascade.Stops putBody s m n (s.put m)) ∧
      (∃ calls, (handle s event).e = s.e ++ calls ∧ calls.length ≤ 1 + s.pendingCount) ∧
      (handle s event).pendingCount ≤ s.pendingCount + 1 := by
  refine ⟨cascade.exists_stops s, ?_⟩
  cases event with
  | message m =>
    rw [handle_message]
    obtain ⟨calls, hcalls⟩ := e_isPrefix_put s m
    refine ⟨⟨calls, hcalls.symm, ?_⟩, pendingCount_put_le s m⟩
    have hsent := length_e_put_le s m
    rw [← hcalls, List.length_append] at hsent
    omega
  | l2Block block =>
    obtain ⟨⟨calls, hcalls⟩, hsent, hpending⟩ := beforePrune_bounds s block
    rw [handle_l2Block, putL2Block_eq, e_prune]
    refine ⟨⟨calls, hcalls.symm, ?_⟩, ?_⟩
    · rw [← hcalls, List.length_append] at hsent
      omega
    · have := pendingCount_prune_le (beforePrune s block) block.number
      omega

end BasedOp.Analysis.PreconfTermination
