import BasedOp.Analysis.PreconfActivation
import Mathlib.Data.List.Chain

/-!
# The order of the preconfirmation messages

The messages of a chain of blocks have one canonical order: the env of a block,
its frags by sequence number, its seal, the env of the next block. This module
numbers the keys in that order and says what the cursors look like while one key
is expected. Then a message that does not come before the expected one is ready
exactly when it is the expected one, and forwarding it makes the cursors expect
its follower.
-/

set_option autoImplicit false

namespace BasedOp.Analysis.PreconfOrder

open Model Model.OpNode PreconfActivation

/-- The place of a key among the keys of its block: the env, the frags by
sequence number, the seal. -/
def phase : Key → ℕ
  | .env _ => 0
  | .frag idx => 1 + idx.sequence.toNat
  | .sealFrag _ => 1 + 2 ^ 64

/-- The place of a key in the canonical order of all messages. -/
def rank (κ : Key) : ℕ := κ.block.toNat * (2 ^ 64 + 2) + phase κ

/-- `m'` comes right after `m` in the canonical order. -/
def Follows (m m' : Message) : Prop :=
  key m' = nextKey m ∧ rank (key m) < rank (key m')

/-- Phases are below the range of a block. -/
theorem phase_lt (κ : Key) : phase κ < 2 ^ 64 + 2 := by
  cases κ with
  | env => simp [phase]
  | frag idx => have := idx.sequence.toNat_lt; simp only [phase]; omega
  | sealFrag => simp [phase]

variable {κ κ' : Key} {c : Cursors} {m : Message}

/-- Keys are ordered by their blocks, and by their places within a block. -/
theorem rank_le_iff : rank κ ≤ rank κ' ↔
    κ.block < κ'.block ∨ (κ.block = κ'.block ∧ phase κ ≤ phase κ') := by
  have h := phase_lt κ
  have h' := phase_lt κ'
  rw [UInt64.lt_iff_toNat_lt, ← UInt64.toNat_inj]
  simp only [rank]
  omega

/-- Ranks compare by block and phase. -/
theorem rank_lt_iff : rank κ < rank κ' ↔
    κ.block < κ'.block ∨ (κ.block = κ'.block ∧ phase κ < phase κ') := by
  have h := phase_lt κ
  have h' := phase_lt κ'
  rw [UInt64.lt_iff_toNat_lt, ← UInt64.toNat_inj]
  simp only [rank]
  omega

/-- Ranks order the blocks. -/
theorem block_le_of_rank_le (h : rank κ ≤ rank κ') : κ.block ≤ κ'.block := by
  rcases rank_le_iff.mp h with hlt | ⟨heq, -⟩
  · exact UInt64.le_of_lt hlt
  · exact UInt64.le_of_eq heq

/-- What the cursors say about the block of the expected key. -/
def PhaseCursors (c : Cursors) : Key → Prop
  | .env n => (∀ b, c.lastEnvSent = some b → b < n) ∧
      (∀ idx, c.lastFragSent = some idx → idx.blockNumber < n) ∧
      (∀ b, c.lastBlockWithAllFrags = some b → b < n)
  | .frag idx => c.lastEnvSent = some idx.blockNumber ∧
      (∀ b, c.lastBlockWithAllFrags = some b → b < idx.blockNumber) ∧
      (if idx.sequence = 0 then
        ∀ idx', c.lastFragSent = some idx' → idx'.blockNumber < idx.blockNumber
      else c.lastFragSent = some idx.prev)
  | .sealFrag n => c.lastEnvSent = some n ∧ c.lastBlockWithAllFrags = some n ∧
      ∃ q, c.lastFragSent = some { blockNumber := n, sequence := q }

/-- The cursors while the message with key `κ` is the next one of a chain of
blocks: everything before it has been forwarded, nothing from it on. The last
seal sent is that of the block before, or none at all on a new state. -/
structure Expecting (c : Cursors) (κ : Key) : Prop where
  seal_eq : c.lastSealSent = none ∨ c.lastSealSent = some (κ.block - 1)
  l2_lt : ∀ n, c.lastL2BlockSent = some n → n < κ.block
  pruned_le : c.lastBlockPruned ≤ κ.block
  phase : PhaseCursors c κ

/-- The expected message is ready. -/
theorem ready_of_expecting (h : Expecting c (key m)) : ready c m := by
  cases m with
  | env =>
    rcases h.seal_eq with hs | hs
    · exact Or.inl hs
    · exact Or.inr (Or.inl hs)
  | newFrag =>
    obtain ⟨henv, -, hfrag⟩ := h.phase
    split_ifs at hfrag with h0
    · exact Or.inl ⟨h0, henv⟩
    · exact Or.inr hfrag
  | sealFrag => exact h.phase.2.1

/-- An env that is ready belongs to the expected block, and nothing of that
block is expected before it. -/
theorem key_env_eq_of_ready {sEnv : SignedEnv} (h : Expecting c κ)
    (hle : rank κ ≤ rank (key (.env sEnv))) (hr : ready c (.env sEnv))
    (hcold : c.lastSealSent = none → sEnv.env.number = κ.block) : key (.env sEnv) = κ := by
  have hblock := block_le_of_rank_le hle
  have hnumber : sEnv.env.number = κ.block := by
    rcases hr with hnone | hprev | hl2
    · exact hcold hnone
    · rcases h.seal_eq with hs | hs
      · rw [hs] at hprev
        cases hprev
      · rw [hs, Option.some.injEq] at hprev
        grind
    · have hlt := h.l2_lt _ hl2
      simp only [key, Key.block] at hblock hlt
      grind
  -- an env of the expected block can only be the first key of that block
  cases κ with
  | env => simpa [key, Key.block] using hnumber
  | frag =>
    rcases rank_le_iff.mp hle with hlt | ⟨-, hph⟩
    · simp only [key, Key.block] at hlt hnumber
      grind
    · simp [phase, key] at hph
  | sealFrag =>
    rcases rank_le_iff.mp hle with hlt | ⟨-, hph⟩
    · simp only [key, Key.block] at hlt hnumber
      grind
    · simp [phase, key] at hph

variable {sFrag : SignedNewFrag} {sSeal : SignedSeal}

/-- A frag that is ready is the expected one. -/
theorem key_newFrag_eq_of_ready (h : Expecting c κ) (hle : rank κ ≤ rank (key (.newFrag sFrag)))
    (hr : ready c (.newFrag sFrag)) :
    key (.newFrag sFrag) = κ := by
  have hblock := block_le_of_rank_le hle
  cases κ with
  | env =>
    obtain ⟨henv, hfrag, -⟩ := h.phase
    simp only [key, Key.block, index] at hblock
    rcases hr with ⟨-, he⟩ | hp
    · have := henv _ he
      grind
    · have := hfrag _ hp
      simp only [FragIndex.prev, index] at this
      grind
  | frag idx =>
    obtain ⟨henv, -, hfrag⟩ := h.phase
    rcases hr with ⟨h0, he⟩ | hp
    · -- the first frag of the block whose env was sent last
      rw [henv, Option.some.injEq] at he
      rcases rank_le_iff.mp hle with hlt | ⟨-, hph⟩
      · simp only [key, Key.block, index] at hlt
        grind
      · simp only [phase, key, index, h0] at hph
        have hseq : idx.sequence = 0 := UInt64.toNat_inj.mp (by simp at hph ⊢; omega)
        rw [key, index, h0, ← he, ← hseq]
    · split_ifs at hfrag with hz
      · have := hfrag _ hp
        simp only [key, Key.block, index, FragIndex.prev] at hblock this
        grind
      · rw [hfrag, Option.some.injEq] at hp
        simp only [FragIndex.prev, index, FragIndex.mk.injEq] at hp
        have hseq : sFrag.frag.seq = idx.sequence := by grind
        rw [key, index, ← hp.1, hseq]
  | sealFrag n =>
    obtain ⟨henv, -, q, hfrag⟩ := h.phase
    have hlt : n < sFrag.frag.blockNumber := by
      rcases rank_le_iff.mp hle with hlt | ⟨-, hph⟩
      · exact hlt
      · have := sFrag.frag.seq.toNat_lt
        simp only [phase, key, index] at hph
        omega
    rcases hr with ⟨-, he⟩ | hp
    · grind
    · rw [hfrag, Option.some.injEq, FragIndex.prev, FragIndex.mk.injEq] at hp
      simp only [index] at hp
      grind

/-- A seal that is ready is the expected one. -/
theorem key_sealFrag_eq_of_ready (h : Expecting c κ) (hle : rank κ ≤ rank (key (.sealFrag sSeal)))
    (hr : ready c (.sealFrag sSeal)) :
    key (.sealFrag sSeal) = κ := by
  have hblock := block_le_of_rank_le hle
  simp only [key, Key.block, ready] at hblock hr
  cases κ with
  | env =>
    have := h.phase.2.2 _ hr
    grind
  | frag =>
    have := h.phase.2.1 _ hr
    grind
  | sealFrag =>
    have hn := h.phase.2.1
    rw [hr, Option.some.injEq] at hn
    rw [key, hn]

/-- A message that does not come before the expected one is not ready
unless it is the expected one. On a state that has sent no seal the guard of an
env is open, so an env of another block has to be excluded there. -/
theorem key_eq_of_ready (h : Expecting c κ) (hle : rank κ ≤ rank (key m)) (hr : ready c m)
    (hcold : c.lastSealSent = none → ∀ sEnv, m = .env sEnv → sEnv.env.number = κ.block) :
    key m = κ := by
  cases m with
  | env sEnv => exact key_env_eq_of_ready h hle hr fun hnone => hcold hnone sEnv rfl
  | newFrag => exact key_newFrag_eq_of_ready h hle hr
  | sealFrag => exact key_sealFrag_eq_of_ready h hle hr

/-- Pruning stays below its block. -/
theorem pruned_lastBlockPruned_le {n : UInt64} (h : c.lastBlockPruned ≤ n) :
    (pruned c n).lastBlockPruned ≤ n := by
  by_cases hp : prunes c n
  · rw [pruned, if_pos hp]
    simp only [prunes, pruneSafeWindow] at hp ⊢
    grind
  · rw [pruned, if_neg hp]
    exact h

/-- After an env its first frag is expected. -/
theorem expecting_advance_env {sEnv : SignedEnv} (h : Expecting c (key (.env sEnv))) :
    Expecting (advance c (.env sEnv)) (nextKey (.env sEnv)) := by
  have hcur : (advance c (.env sEnv)).lastSealSent = c.lastSealSent ∧
      (advance c (.env sEnv)).lastL2BlockSent = c.lastL2BlockSent ∧
      (advance c (.env sEnv)).lastEnvSent = some sEnv.env.number ∧
      (advance c (.env sEnv)).lastFragSent = c.lastFragSent ∧
      (advance c (.env sEnv)).lastBlockWithAllFrags = c.lastBlockWithAllFrags := by
    simp only [advance, pruned]
    split_ifs <;> simp
  obtain ⟨hs, hl, he, hfr, hb⟩ := hcur
  refine ⟨?_, ?_, ?_, ?_⟩
  · rw [hs]
    exact h.seal_eq
  · rw [hl]
    exact h.l2_lt
  · exact pruned_lastBlockPruned_le h.pruned_le
  · refine ⟨he, ?_, ?_⟩
    · rw [hb]
      exact h.phase.2.2
    · rw [hfr]
      exact h.phase.2.1

/-- After a frag the next one, or the seal. -/
theorem expecting_advance_newFrag (h : Expecting c (key (.newFrag sFrag)))
    (hrank : rank (key (.newFrag sFrag)) < rank (nextKey (.newFrag sFrag))) :
    Expecting (advance c (.newFrag sFrag)) (nextKey (.newFrag sFrag)) := by
  obtain ⟨henv, hall, -⟩ := h.phase
  cases hl : sFrag.frag.isLast with
  | true =>
    simp only [nextKey, advance, hl, if_true]
    exact ⟨h.seal_eq, h.l2_lt, h.pruned_le, henv, rfl, sFrag.frag.seq, rfl⟩
  | false =>
    simp only [nextKey, hl, Bool.false_eq_true, if_false] at hrank
    simp only [nextKey, advance, hl, Bool.false_eq_true, if_false]
    refine ⟨h.seal_eq, h.l2_lt, h.pruned_le, henv, hall, ?_⟩
    -- the follower has a larger place, so its sequence number has not wrapped to zero
    have hne : (index sFrag.frag).next.sequence ≠ 0 := by
      intro hz
      rcases rank_lt_iff.mp hrank with hlt | ⟨-, hph⟩
      · exact absurd hlt (UInt64.lt_irrefl _)
      · simp only [phase, key, hz] at hph
        simp at hph
    rw [if_neg hne]
    simp [FragIndex.prev, FragIndex.next, index]

/-- After a seal the next env. -/
theorem expecting_advance_sealFrag (h : Expecting c (key (.sealFrag sSeal)))
    (hrank : rank (key (.sealFrag sSeal)) < rank (nextKey (.sealFrag sSeal))) :
    Expecting (advance c (.sealFrag sSeal)) (nextKey (.sealFrag sSeal)) := by
  obtain ⟨henv, hall, q, hfrag⟩ := h.phase
  have hlt : sSeal.sealData.blockNumber < sSeal.sealData.blockNumber + 1 := by
    rcases rank_lt_iff.mp hrank with hlt | ⟨-, hph⟩
    · exact hlt
    · simp [phase, key, nextKey] at hph
  refine ⟨?_, ?_, ?_, ?_, ?_, ?_⟩
  · right
    simp [advance, nextKey, Key.block]
  · intro n hn
    have := h.l2_lt n hn
    simp only [key, nextKey, Key.block] at this ⊢
    exact UInt64.lt_trans this hlt
  · have := h.pruned_le
    simp only [key, nextKey, Key.block, advance] at this ⊢
    exact UInt64.le_trans this (UInt64.le_of_lt hlt)
  · intro b hb
    simp only [advance, henv, Option.some.injEq] at hb
    exact hb ▸ hlt
  · intro idx hidx
    simp only [advance, hfrag, Option.some.injEq] at hidx
    exact hidx ▸ hlt
  · intro b hb
    simp only [advance, hall, Option.some.injEq] at hb
    exact hb ▸ hlt

/-- Forwarding the expected message makes the cursors expect its follower. -/
theorem expecting_advance {m' : Message} (h : Expecting c (key m)) (hf : Follows m m') :
    Expecting (advance c m) (key m') := by
  obtain ⟨hkey, hrank⟩ := hf
  rw [hkey] at hrank ⊢
  cases m with
  | env => exact expecting_advance_env h
  | newFrag => exact expecting_advance_newFrag h hrank
  | sealFrag => exact expecting_advance_sealFrag h hrank

end BasedOp.Analysis.PreconfOrder
