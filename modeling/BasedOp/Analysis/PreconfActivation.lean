import BasedOp.Model.Preconf

/-!
# One activation of a put function

The three put functions of the preconfirmation state have one shape. A message
that is ready moves the cursors and is forwarded, and then the one message that
may follow it is looked for among the pending ones; a message that is not ready
is kept unless its block has been pruned. `putBody_eq` says so once for the three
of them, in terms of the key under which a message is pending, and every
invariant of the state is derived from that equation.
-/

set_option autoImplicit false

namespace BasedOp.Analysis.PreconfActivation

open BasedOp.Computation Model Model.OpNode

/-- Where a message is kept while it is pending. -/
inductive Key where
  | env (number : UInt64)
  | frag (idx : FragIndex)
  | sealFrag (number : UInt64)
deriving DecidableEq

def Key.block : Key → UInt64
  | .env n => n
  | .frag idx => idx.blockNumber
  | .sealFrag n => n

def key : Message → Key
  | .env sEnv => .env sEnv.env.number
  | .newFrag sFrag => .frag (index sFrag.frag)
  | .sealFrag sSeal => .sealFrag sSeal.sealData.blockNumber

/-- The key that is looked for once a message has been forwarded. -/
def nextKey : Message → Key
  | .env sEnv => .frag { blockNumber := sEnv.env.number, sequence := 0 }
  | .newFrag sFrag =>
    if sFrag.frag.isLast then .sealFrag sFrag.frag.blockNumber
    else .frag (index sFrag.frag).next
  | .sealFrag sSeal => .env (sSeal.sealData.blockNumber + 1)

def pending (s : PreconfState) : Key → Option Message
  | .env n => (s.pendingEnvs.lookup n).map .env
  | .frag idx => (s.pendingFrags.lookup idx).map .newFrag
  | .sealFrag n => (s.pendingSeals.lookup n).map .sealFrag

def forget (s : PreconfState) : Key → PreconfState
  | .env n => { s with pendingEnvs := s.pendingEnvs.erase n }
  | .frag idx => { s with pendingFrags := s.pendingFrags.erase idx }
  | .sealFrag n => { s with pendingSeals := s.pendingSeals.erase n }

def keep (s : PreconfState) : Message → PreconfState
  | .env sEnv => { s with pendingEnvs := s.pendingEnvs.insert sEnv.env.number sEnv }
  | .newFrag sFrag => { s with pendingFrags := s.pendingFrags.insert (index sFrag.frag) sFrag }
  | .sealFrag sSeal =>
    { s with pendingSeals := s.pendingSeals.insert sSeal.sealData.blockNumber sSeal }

/-- The cursors of the state: all that its guards read. -/
structure Cursors where
  lastEnvSent : Option UInt64
  lastFragSent : Option FragIndex
  lastSealSent : Option UInt64
  lastL2BlockSent : Option UInt64
  lastBlockWithAllFrags : Option UInt64
  lastBlockPruned : UInt64
deriving DecidableEq

def cursors (s : PreconfState) : Cursors where
  lastEnvSent := s.lastEnvSent
  lastFragSent := s.lastFragSent
  lastSealSent := s.lastSealSent
  lastL2BlockSent := s.lastL2BlockSent
  lastBlockWithAllFrags := s.lastBlockWithAllFrags
  lastBlockPruned := s.lastBlockPruned

/-- The condition under which a message is forwarded at once.
SRCLINE: preconf.go:126,148-150,177 -/
def ready (c : Cursors) : Message → Prop
  | .env sEnv => c.lastSealSent = none ∨ c.lastSealSent = some (sEnv.env.number - 1) ∨
      c.lastL2BlockSent = some sEnv.env.number
  | .newFrag sFrag =>
      (sFrag.frag.seq = 0 ∧ c.lastEnvSent = some sFrag.frag.blockNumber) ∨
      c.lastFragSent = some (index sFrag.frag).prev
  | .sealFrag sSeal => c.lastBlockWithAllFrags = some sSeal.sealData.blockNumber

instance (c : Cursors) : (m : Message) → Decidable (ready c m)
  | .env _ => inferInstanceAs (Decidable (_ ∨ _ ∨ _))
  | .newFrag _ => inferInstanceAs (Decidable ((_ ∧ _) ∨ _))
  | .sealFrag _ => inferInstanceAs (Decidable (_ = _))

/-- Pruning at a block takes effect. -/
def prunes (c : Cursors) (n : UInt64) : Prop :=
  ¬ n - c.lastBlockPruned < 2 * pruneSafeWindow

instance (c : Cursors) (n : UInt64) : Decidable (prunes c n) :=
  inferInstanceAs (Decidable (¬ _))

def pruned (c : Cursors) (n : UInt64) : Cursors :=
  if prunes c n then { c with lastBlockPruned := n - pruneSafeWindow } else c

/-- The cursors once a message has been forwarded. -/
def advance (c : Cursors) : Message → Cursors
  | .env sEnv => pruned { c with lastEnvSent := some sEnv.env.number } sEnv.env.number
  | .newFrag sFrag =>
    { c with
      lastFragSent := some (index sFrag.frag)
      lastBlockWithAllFrags :=
        if sFrag.frag.isLast then some sFrag.frag.blockNumber else c.lastBlockWithAllFrags }
  | .sealFrag sSeal => { c with lastSealSent := some sSeal.sealData.blockNumber }

/-- The state once a message that is ready has been forwarded. -/
def forward (s : PreconfState) : Message → PreconfState
  | .env sEnv =>
    ({ s with lastEnvSent := some sEnv.env.number }.send (.env sEnv)).prune sEnv.env.number
  | .newFrag sFrag =>
    let s := { s with lastFragSent := some (index sFrag.frag) }.send (.newFrag sFrag)
    if sFrag.frag.isLast then { s with lastBlockWithAllFrags := some sFrag.frag.blockNumber }
    else s
  | .sealFrag sSeal =>
    { s with lastSealSent := some sSeal.sealData.blockNumber }.send (.sealFrag sSeal)

/-- What one activation of a put function does. -/
theorem putBody_eq (s : PreconfState) (m : Message) :
    s.putBody m =
      if ready (cursors s) m then
        match pending (forward s m) (nextKey m) with
        | some m' => (forget (forward s m) (nextKey m), some m')
        | none => (forward s m, none)
      else if s.lastBlockPruned ≤ (key m).block then (keep s m, none)
      else (s, none) := by
  cases m with
  | env sEnv =>
    have hguard : (!s.lastSealSent.isSome || isEqual s.lastSealSent (sEnv.env.number - 1) ||
        isEqual s.lastL2BlockSent sEnv.env.number) = true ↔ ready (cursors s) (.env sEnv) := by
      cases hs : s.lastSealSent <;> simp [ready, cursors, isEqual, hs]
    simp only [PreconfState.putBody, PreconfState.putEnvBody, hguard]
    by_cases hr : ready (cursors s) (.env sEnv)
    · simp only [hr, if_true, PreconfState.takePendingFrag, nextKey, pending, forget, forward]
      split <;> rename_i hlook <;> simp [hlook]
    · rw [if_neg hr, if_neg hr]
      rfl
  | newFrag sFrag =>
    have hguard : (sFrag.frag.seq == 0 && isEqual s.lastEnvSent sFrag.frag.blockNumber ||
        isEqual s.lastFragSent (index sFrag.frag).prev) = true ↔ ready (cursors s) (.newFrag sFrag) := by
      simp [ready, cursors, isEqual]
    simp only [PreconfState.putBody, PreconfState.putFragBody, hguard]
    by_cases hr : ready (cursors s) (.newFrag sFrag)
    · simp only [hr, if_true, nextKey, forward]
      cases hl : sFrag.frag.isLast with
      | true =>
        simp only [if_true, PreconfState.takePendingSeal, pending, forget]
        split <;> rename_i hlook <;> simp only [index] at hlook <;> simp [hlook, index]
      | false =>
        simp only [Bool.false_eq_true, if_false, PreconfState.takePendingFrag, pending, forget]
        split <;> rename_i hlook <;> simp [hlook]
    · rw [if_neg hr, if_neg hr]
      rfl
  | sealFrag sSeal =>
    have hguard : isEqual s.lastBlockWithAllFrags sSeal.sealData.blockNumber = true ↔
        ready (cursors s) (.sealFrag sSeal) := by
      simp [ready, cursors, isEqual]
    simp only [PreconfState.putBody, PreconfState.putSealBody, hguard]
    by_cases hr : ready (cursors s) (.sealFrag sSeal)
    · simp only [hr, if_true, PreconfState.takePendingEnv, nextKey, pending, forget, forward]
      split <;> rename_i hlook <;> simp [hlook]
    · rw [if_neg hr, if_neg hr]
      rfl

variable {s : PreconfState} {m : Message}

/-- A ready message lets its follower go. -/
theorem putBody_of_follower {m' : Message} (hr : ready (cursors s) m)
    (hp : pending (forward s m) (nextKey m) = some m') :
    s.putBody m = (forget (forward s m) (nextKey m), some m') := by
  rw [putBody_eq, if_pos hr, hp]

/-- A ready message may have no follower pending. -/
theorem putBody_of_no_follower (hr : ready (cursors s) m)
    (hp : pending (forward s m) (nextKey m) = none) :
    s.putBody m = (forward s m, none) := by
  rw [putBody_eq, if_pos hr, hp]

/-- A message that is not ready is kept. -/
theorem putBody_of_not_ready (hr : ¬ ready (cursors s) m) (hb : s.lastBlockPruned ≤ (key m).block) :
    s.putBody m = (keep s m, none) := by
  rw [putBody_eq, if_neg hr, if_pos hb]

/-- The cases of one activation, for an argument that does not care which message is pending. -/
theorem putBody_cases (s : PreconfState) (m : Message) :
    (ready (cursors s) m ∧ ∃ m', pending (forward s m) (nextKey m) = some m' ∧
      s.putBody m = (forget (forward s m) (nextKey m), some m')) ∨
    (ready (cursors s) m ∧ s.putBody m = (forward s m, none)) ∨
    (¬ ready (cursors s) m ∧ s.putBody m = (keep s m, none)) ∨
    (¬ ready (cursors s) m ∧ s.putBody m = (s, none)) := by
  rw [putBody_eq]
  by_cases hr : ready (cursors s) m
  · cases hp : pending (forward s m) (nextKey m) with
    | some m' => exact Or.inl ⟨hr, m', rfl, by simp [hr]⟩
    | none => exact Or.inr (Or.inl ⟨hr, by simp [hr]⟩)
  · by_cases hb : s.lastBlockPruned ≤ (key m).block
    · exact Or.inr (Or.inr (Or.inl ⟨hr, by simp [hr, hb]⟩))
    · exact Or.inr (Or.inr (Or.inr ⟨hr, by simp [hr, hb]⟩))

/-- Forgetting moves no cursor. -/
@[simp] theorem cursors_forget (s : PreconfState) (κ : Key) : cursors (forget s κ) = cursors s := by
  cases κ <;> rfl

/-- Forgetting forwards nothing. -/
@[simp] theorem e_forget (s : PreconfState) (κ : Key) : (forget s κ).e = s.e := by
  cases κ <;> rfl

/-- Keeping moves no cursor. -/
@[simp] theorem cursors_keep (s : PreconfState) (m : Message) : cursors (keep s m) = cursors s := by
  cases m <;> rfl

/-- Keeping forwards nothing. -/
@[simp] theorem e_keep (s : PreconfState) (m : Message) : (keep s m).e = s.e := by
  cases m <;> rfl

/-- What pruning does to the cursors. -/
@[simp] theorem cursors_prune (s : PreconfState) (n : UInt64) :
    cursors (s.prune n) = pruned (cursors s) n := by
  unfold PreconfState.prune pruned prunes
  by_cases h : n - s.lastBlockPruned < 2 * pruneSafeWindow <;> simp [h, cursors]

/-- Pruning forwards nothing. -/
@[simp] theorem e_prune (s : PreconfState) (n : UInt64) : (s.prune n).e = s.e := by
  unfold PreconfState.prune
  split <;> rfl

/-- Forwarding advances the cursors. -/
@[simp] theorem cursors_forward (s : PreconfState) (m : Message) :
    cursors (forward s m) = advance (cursors s) m := by
  cases m with
  | env => exact cursors_prune _ _
  | newFrag sFrag =>
    cases hl : sFrag.frag.isLast <;> simp [forward, advance, PreconfState.send, cursors, hl]
  | sealFrag => rfl

/-- Forwarding sends the message. -/
@[simp] theorem e_forward (s : PreconfState) (m : Message) : (forward s m).e = s.e ++ [m] := by
  cases m with
  | env => simp [forward, PreconfState.send]
  | newFrag sFrag => cases hl : sFrag.frag.isLast <;> simp [forward, PreconfState.send, hl]
  | sealFrag => rfl

/-- Nothing is pending in empty maps. -/
theorem pending_of_maps_empty (he : s.pendingEnvs = ∅) (hf : s.pendingFrags = ∅)
    (hs : s.pendingSeals = ∅) (κ : Key) : pending s κ = none := by
  cases κ <;> simp [pending, he, hf, hs]

/-- A kept message is pending. -/
theorem pending_keep (s : PreconfState) (m : Message) (κ : Key) :
    pending (keep s m) κ = if κ = key m then some m else pending s κ := by
  cases m <;> cases κ <;> simp only [keep, pending, key, reduceCtorEq, if_false, Key.env.injEq,
    Key.frag.injEq, Key.sealFrag.injEq]
  all_goals
    split_ifs with h
    · subst h
      simp
    · rw [AList.lookup_insert_ne h]

/-- A forgotten one is not. -/
theorem pending_forget (s : PreconfState) (κ κ' : Key) :
    pending (forget s κ) κ' = if κ' = κ then none else pending s κ' := by
  cases κ <;> cases κ' <;> simp only [forget, pending, reduceCtorEq, if_false, Key.env.injEq,
    Key.frag.injEq, Key.sealFrag.injEq]
  all_goals
    split_ifs with h
    · subst h
      simp
    · rw [AList.lookup_erase_ne h]

/-- Pruning drops the pending messages below the window, and no others. -/
theorem pending_prune (s : PreconfState) (n : UInt64) (κ : Key) :
    pending (s.prune n) κ =
      if prunes (cursors s) n ∧ κ.block < n - pruneSafeWindow then none else pending s κ := by
  unfold PreconfState.prune prunes
  by_cases h : n - s.lastBlockPruned < 2 * pruneSafeWindow
  · simp [h, cursors]
  · cases κ <;> simp only [h, if_false, cursors, not_false_eq_true, true_and, pending,
      lookup_discard, Key.block, decide_eq_true_eq] <;> split_ifs <;> rfl

/-- Forwarding a message leaves the pending ones alone, except that an env prunes. -/
theorem pending_forward (s : PreconfState) (m : Message) (κ : Key) :
    pending (forward s m) κ = pending s κ ∨
      ∃ sEnv, m = .env sEnv ∧ prunes (cursors s) sEnv.env.number ∧
        κ.block < sEnv.env.number - pruneSafeWindow ∧ pending (forward s m) κ = none := by
  cases m with
  | env sEnv =>
    simp only [forward, pending_prune]
    split_ifs with h
    · exact Or.inr ⟨sEnv, rfl, h.1, h.2, rfl⟩
    · left
      cases κ <;> rfl
  | newFrag sFrag =>
    left
    cases hl : sFrag.frag.isLast <;> cases κ <;> simp [forward, PreconfState.send, pending, hl]
  | sealFrag =>
    left
    cases κ <;> rfl

/-- Forwarding makes nothing pending. -/
theorem pending_of_pending_forward {m' : Message} {κ : Key}
    (h : pending (forward s m) κ = some m') : pending s κ = some m' := by
  rcases pending_forward s m κ with hp | ⟨_, _, _, _, hn⟩
  · rw [← hp, h]
  · rw [hn] at h
    cases h

/-- One activation forwards its message or nothing. -/
theorem e_putBody (s : PreconfState) (m : Message) :
    (s.putBody m).1.e = if ready (cursors s) m then s.e ++ [m] else s.e := by
  rcases putBody_cases s m with ⟨hr, m', -, h⟩ | ⟨hr, h⟩ | ⟨hr, h⟩ | ⟨hr, h⟩ <;> simp [h, hr]

/-- What was sent stays sent. -/
theorem e_isPrefix_put (s : PreconfState) (m : Message) : s.e <+: (s.put m).e := by
  have hstep : ∀ s m, s.e <+: (PreconfState.putBody s m).1.e := by
    intro s m
    rw [e_putBody]
    split_ifs
    · exact List.prefix_append _ _
    · exact List.prefix_rfl
  refine PreconfState.cascade.run_induction (fun s' _ => s.e <+: s'.e) (fun s' => s.e <+: s'.e)
    ?_ ?_ s m List.prefix_rfl
  · intro s' m' h _
    exact h.trans (hstep s' m')
  · intro s' m' _ h _
    exact h.trans (hstep s' m')

/-- A message that is ready is the first one that putting it forwards. -/
theorem e_isPrefix_put_of_ready (hr : ready (cursors s) m) : s.e ++ [m] <+: (s.put m).e := by
  rcases putBody_cases s m with ⟨-, m', -, h⟩ | ⟨-, h⟩ | ⟨hn, -⟩ | ⟨hn, -⟩
  · rw [PreconfState.put, PreconfState.cascade.run_of_step_some h, ← e_forward,
      ← e_forget (forward s m) (nextKey m)]
    exact e_isPrefix_put _ m'
  · have he : (s.put m).e = s.e ++ [m] := by
      rw [PreconfState.put, PreconfState.cascade.run_of_step_none h, e_forward]
    exact he ▸ List.prefix_rfl
  · exact absurd hr hn
  · exact absurd hr hn

end BasedOp.Analysis.PreconfActivation
