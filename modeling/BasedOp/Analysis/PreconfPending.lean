import BasedOp.Analysis.PreconfTrace

/-!
# What stays pending

A put function looks for one message only once it has forwarded its own: the one that its
forwarding has made ready. That this is enough is an invariant of the keys. A key is
awaited if a message under it would be forwarded at once; moving the cursors makes at most
one more key awaited, which is the one that is looked for next, and a message is only kept
under a key that is not awaited.
-/

set_option autoImplicit false

namespace BasedOp.Analysis.PreconfPending

open BasedOp.Computation Model Model.OpNode
open PreconfActivation PreconfRuns PreconfTrace

/-! ## The keys that are awaited -/

/-- A message under the key would be forwarded at once. The successor of the frag that was forwarded
last is not waited for if that was the last of its block, although it would be forwarded.
SRCLINE: preconf.go:126,131-137,148-150,154-168,177,180-185,194-198 -/
def Awaited (c : Cursors) (sent : Option SignedNewFrag) : Key → Prop
  | .env n => c.lastSealSent = none ∨ c.lastSealSent = some (n - 1) ∨ c.lastL2BlockSent = some n
  | .frag idx => (idx.sequence = 0 ∧ c.lastEnvSent = some idx.blockNumber) ∨
      (c.lastFragSent = some idx.prev ∧ ∀ f ∈ sent, f.frag.isLast = false)
  | .sealFrag n => c.lastBlockWithAllFrags = some n

def lastFrag (t : List Message) : Option SignedNewFrag := (frags t).getLast?

variable {c : Cursors} {m : Message} {s : PreconfState} {sent : Option SignedNewFrag} {κ : Key}

/-- What is awaited is ready. -/
theorem ready_of_awaited (h : Awaited c sent (key m)) : ready c m := by
  cases m with
  | env => exact h
  | newFrag => exact h.imp_right And.left
  | sealFrag => exact h

/-- Previous and next are inverse. -/
theorem prev_eq_iff {idx idx' : FragIndex} : idx = idx'.prev ↔ idx' = idx.next := by
  cases idx
  cases idx'
  simp only [FragIndex.prev, FragIndex.next, FragIndex.mk.injEq]
  constructor
  · rintro ⟨rfl, rfl⟩
    exact ⟨rfl, (UInt64.sub_add_cancel _ _).symm⟩
  · rintro ⟨rfl, rfl⟩
    exact ⟨rfl, (UInt64.add_sub_cancel _ _).symm⟩

/-- Forwarding a message makes no key awaited but the one that is looked for next. -/
theorem awaited_advance {t : List Message} (h : Awaited (advance c m) (lastFrag (t ++ [m])) κ) :
    κ = nextKey m ∨ Awaited c (lastFrag t) κ := by
  cases m with
  | env sEnv =>
    have hsent : lastFrag (t ++ [.env sEnv]) = lastFrag t := by simp [lastFrag, frags]
    rw [hsent] at h
    have hcursors : ∀ c' : Cursors, advance c (.env sEnv) = c' →
        c'.lastEnvSent = some sEnv.env.number ∧ c'.lastFragSent = c.lastFragSent ∧
        c'.lastSealSent = c.lastSealSent ∧ c'.lastL2BlockSent = c.lastL2BlockSent ∧
        c'.lastBlockWithAllFrags = c.lastBlockWithAllFrags := by
      rintro c' rfl
      simp only [advance, pruned]
      split_ifs <;> exact ⟨rfl, rfl, rfl, rfl, rfl⟩
    obtain ⟨henv, hfrag, hseal, hl2, hall⟩ := hcursors _ rfl
    cases κ with
    | env =>
      simp only [Awaited, hseal, hl2] at h
      exact .inr h
    | frag idx =>
      simp only [Awaited, henv, hfrag] at h
      obtain ⟨hzero, hblock⟩ | hnext := h
      · -- the first frag of the block that was opened
        refine .inl ?_
        obtain ⟨blockNumber, sequence⟩ := idx
        rw [nextKey, Option.some.inj hblock, ← show sequence = 0 from hzero]
      · exact .inr (.inr hnext)
    | sealFrag =>
      simp only [Awaited, hall] at h
      exact .inr h
  | newFrag sFrag =>
    have hsent : lastFrag (t ++ [.newFrag sFrag]) = some sFrag := by simp [lastFrag, frags]
    rw [hsent] at h
    cases κ with
    | env => exact .inr h
    | frag =>
      obtain hfirst | ⟨hnext, hlast⟩ := h
      · exact .inr (.inl hfirst)
      · refine .inl ?_
        have heq := prev_eq_iff.mp (Option.some.inj hnext)
        rw [nextKey, if_neg (by simp [hlast sFrag rfl]), heq]
    | sealFrag =>
      cases hlast : sFrag.frag.isLast with
      | true =>
        simp only [Awaited, advance, hlast, if_true] at h
        rw [nextKey, if_pos hlast, Option.some.inj h]
        exact .inl rfl
      | false =>
        simp only [Awaited, advance, hlast] at h
        exact .inr h
  | sealFrag sSeal =>
    have hsent : lastFrag (t ++ [.sealFrag sSeal]) = lastFrag t := by simp [lastFrag, frags]
    rw [hsent] at h
    cases κ with
    | env =>
      obtain hnone | hseal | hl2 := h
      · cases hnone
      · refine .inl ?_
        rw [nextKey, Option.some.inj hseal, UInt64.sub_add_cancel]
      · exact .inr (.inr (.inr hl2))
    | frag => exact .inr h
    | sealFrag => exact .inr h

/-- Pruning makes nothing awaited. -/
theorem awaited_pruned {n : UInt64} (h : Awaited (pruned c n) sent κ) : Awaited c sent κ := by
  unfold pruned at h
  split_ifs at h
  · cases κ <;> exact h
  · exact h

/-! ## No key with a pending message is awaited -/

/-- What is pending under a key that is awaited: nothing. -/
def NothingAwaited (s : PreconfState) : Prop :=
  ∀ κ, Awaited (cursors s) (lastFrag s.e) κ → pending s κ = none

/-- Once a message has been forwarded and the one that follows it taken, nothing
that is pending is awaited. -/
theorem nothingAwaited_forward {s' : PreconfState} (h : NothingAwaited s)
    (hcursors : cursors s' = advance (cursors s) m) (he : s'.e = s.e ++ [m])
    (hnext : pending s' (nextKey m) = none)
    (hpending : ∀ κ, pending s κ = none → pending s' κ = none) : NothingAwaited s' := by
  intro κ hκ
  rw [hcursors, he] at hκ
  obtain rfl | hold := awaited_advance hκ
  · exact hnext
  · exact hpending κ (h κ hold)

/-- Nor does keeping what is not ready. -/
theorem nothingAwaited_keep (h : NothingAwaited s) (hready : ¬ ready (cursors s) m) :
    NothingAwaited (keep s m) := by
  intro κ hκ
  rw [cursors_keep, e_keep] at hκ
  rw [pending_keep]
  split
  · rename_i heq
    rw [heq] at hκ
    exact absurd (ready_of_awaited hκ) hready
  · exact h κ hκ

/-- Pruning keeps the invariant. -/
theorem nothingAwaited_prune (h : NothingAwaited s) (n : UInt64) : NothingAwaited (s.prune n) := by
  intro κ hκ
  rw [cursors_prune, e_prune] at hκ
  rw [pending_prune]
  split
  · rfl
  · exact h κ (awaited_pruned hκ)

/-- Forwarding makes nothing pending. -/
theorem pending_forward_none (h : pending s κ = none) : pending (forward s m) κ = none := by
  cases hp : pending (forward s m) κ with
  | none => rfl
  | some =>
    rw [pending_of_pending_forward hp] at h
    cases h

/-- One activation of a put function, whatever the message. -/
theorem nothingAwaited_putBody (h : NothingAwaited s) (m : Message) :
    NothingAwaited (s.putBody m).1 := by
  by_cases hready : ready (cursors s) m
  · cases hp : pending (forward s m) (nextKey m) with
    | none =>
      rw [putBody_of_no_follower hready hp]
      exact nothingAwaited_forward h (cursors_forward s m) (e_forward s m) hp
        fun κ => pending_forward_none
    | some =>
      rw [putBody_of_follower hready hp]
      refine nothingAwaited_forward (m := m) h ?_ ?_ ?_ ?_
      · rw [cursors_forget, cursors_forward]
      · rw [e_forget, e_forward]
      · rw [pending_forget, if_pos rfl]
      · intro κ hκ
        rw [pending_forget]
        split
        · rfl
        · exact pending_forward_none hκ
  · rw [putBody_eq, if_neg hready]
    split
    · exact nothingAwaited_keep h hready
    · exact h

/-- A message keeps the invariant. -/
theorem nothingAwaited_put (h : NothingAwaited s) (m : Message) : NothingAwaited (s.put m) := by
  refine PreconfState.cascade.run_induction (fun s _ => NothingAwaited s) NothingAwaited
    ?_ ?_ s m h
  · intro s m h _
    exact nothingAwaited_putBody h m
  · intro s m m' h _
    exact nothingAwaited_putBody h m

/-- An L2 block makes the env of its number awaited, which is taken. -/
theorem nothingAwaited_putL2Block (h : NothingAwaited s) (block : L2BlockRef) :
    NothingAwaited (s.putL2Block block) := by
  have htake : NothingAwaited
      (forget { s with lastL2BlockSent := some block.number } (.env block.number)) := by
    intro κ hκ
    rw [cursors_forget, e_forget] at hκ
    rw [pending_forget]
    split
    · rfl
    · rename_i hne
      refine (?_ : pending s κ = none)
      apply h
      cases κ with
      | env =>
        obtain hnone | hseal | hl2 := hκ
        · exact .inl hnone
        · exact .inr (.inl hseal)
        · exact absurd (congrArg Key.env (Option.some.inj hl2).symm) hne
      | frag => exact hκ
      | sealFrag => exact hκ
  unfold PreconfState.putL2Block PreconfState.takePendingEnv
  apply nothingAwaited_prune
  cases hp : s.pendingEnvs.lookup block.number with
  | none =>
    -- nothing was pending under the key, so taking it changes nothing
    intro κ hκ
    have hκ' := htake κ (by rwa [cursors_forget, e_forget])
    rw [pending_forget] at hκ'
    split at hκ'
    · rename_i heq
      rw [heq]
      exact Option.map_eq_none_iff.mpr hp
    · exact hκ'
  | some sEnv => exact nothingAwaited_put htake (.env sEnv)

/-- Every run keeps the invariant. -/
theorem nothingAwaited_preconfHandler (h : NothingAwaited s) (events : List Event) :
    NothingAwaited (preconfHandler s events) := by
  induction events generalizing s with
  | nil => exact h
  | cons ev events ih =>
    apply ih
    cases ev with
    | message m =>
      rw [handle_message]
      exact nothingAwaited_put h m
    | l2Block block => exact nothingAwaited_putL2Block h block

/-! ## Every run -/

/-- The seal that was forwarded last is that of the cursor. -/
theorem lastSealSent_preconfHandler (events : List Event) :
    (preconfHandler newPreconfState events).lastSealSent =
      (seals (preconfHandler newPreconfState events).e).getLast? := by
  have hpreserved : Preserved fun s _ => (cursors s).lastSealSent = (seals s.e).getLast? :=
    { forward := by
        intro s m _ h
        rw [cursors_forward, e_forward]
        cases m with
        | env =>
          simp only [advance, pruned]
          split_ifs <;> simpa [seals] using h
        | newFrag => simpa [advance, seals] using h
        | sealFrag => simp [advance, seals]
      take := by
        intro s κ m _ h
        rw [cursors_forget, e_forget]
        exact h
      keep := by
        intro s m h
        rw [cursors_keep, e_keep]
        exact h
      drop := fun _ _ h => h
      prune := by
        intro s n h
        rw [cursors_prune, e_prune, pruned]
        split_ifs <;> exact h
      l2Block := fun _ _ h => h }
  exact hpreserved.preconfHandler events (fun _ _ _ h => h) newPreconfState rfl

/-- No message that could be forwarded is pending. -/
structure NoneDeliverable (s : PreconfState) : Prop where
  noEnvs : seals s.e = [] → s.pendingEnvs = ∅
  envAfterSeal : ∀ n, s.lastSealSent = some n → s.pendingEnvs.lookup (n + 1) = none
  envOfL2Block : ∀ n, s.lastL2BlockSent = some n → s.pendingEnvs.lookup n = none
  firstFrag : ∀ n, s.lastEnvSent = some n →
    s.pendingFrags.lookup { blockNumber := n, sequence := 0 } = none
  nextFrag : ∀ idx, s.lastFragSent = some idx → ∃ f, (frags s.e).getLast? = some f ∧
    index f.frag = idx ∧ (f.frag.isLast = false → s.pendingFrags.lookup idx.next = none)
  sealOfBlock : ∀ n, s.lastBlockWithAllFrags = some n → s.pendingSeals.lookup n = none

/-- After every sequence of events no message is pending that could be forwarded: no env before the
first seal, none that follows the seal forwarded last and none of the L2 block seen last, neither
the first frag of the env forwarded last nor the one after the frag forwarded last, unless that was
the last of its block, and not the seal of the block whose frags are complete.
SRCLINE: preconf.go:124-233 -/
theorem noneDeliverable_preconfHandler (events : List Event) :
    NoneDeliverable (preconfHandler newPreconfState events) := by
  have hnothing : NothingAwaited (preconfHandler newPreconfState events) := by
    apply nothingAwaited_preconfHandler
    intro κ _
    exact pending_of_maps_empty rfl rfl rfl κ
  have hmirrors := (preserved_admitted.preconfHandler events (fun _ _ _ h => h) newPreconfState
    ⟨.nil, rfl, rfl, rfl⟩).2
  have hseal := lastSealSent_preconfHandler events
  generalize preconfHandler newPreconfState events = s at hnothing hmirrors hseal
  have henv : ∀ n, Awaited (cursors s) (lastFrag s.e) (.env n) → s.pendingEnvs.lookup n = none :=
    fun n h => Option.map_eq_none_iff.mp (hnothing (.env n) h)
  have hfrag : ∀ idx, Awaited (cursors s) (lastFrag s.e) (.frag idx) →
      s.pendingFrags.lookup idx = none :=
    fun idx h => Option.map_eq_none_iff.mp (hnothing (.frag idx) h)
  refine ⟨?_, ?_, ?_, ?_, ?_, ?_⟩
  · intro hnone
    rw [hnone] at hseal
    exact eq_empty_of_lookup_eq_none fun n => henv n (.inl hseal)
  · intro n hn
    refine henv (n + 1) (.inr (.inl ?_))
    rw [UInt64.add_sub_cancel]
    exact hn
  · intro n hn
    exact henv n (.inr (.inr hn))
  · intro n hn
    exact hfrag _ (.inl ⟨rfl, hn⟩)
  · intro idx hidx
    obtain ⟨f, hf, hindex⟩ := Option.map_eq_some_iff.mp (hmirrors.lastFragSent.symm.trans hidx)
    refine ⟨f, hf, hindex, fun hlast => hfrag _ (.inr ⟨?_, ?_⟩)⟩
    · rw [← show idx = idx.next.prev from prev_eq_iff.mpr rfl]
      exact hidx
    · intro f' hf'
      rw [lastFrag, hf] at hf'
      rwa [← Option.some.inj hf']
  · intro n hn
    exact Option.map_eq_none_iff.mp (hnothing (.sealFrag n) hn)

end BasedOp.Analysis.PreconfPending
